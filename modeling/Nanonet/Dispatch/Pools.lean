import Nanonet.Dispatch.Ownership

/-!
# A program with several pools

`dispatch()` and `dispatch_returning()` of `dispatch.h` as a program uses them: the main thread
constructs and destroys pools in nested scopes, and the main thread as well as the tasks hand tasks
to the pools. A task that is handed over with `dispatch_returning()` runs inside a wrapper that
refers to a variable of the caller, and the caller waits for the future of the wrapper.

A pool is named by its level, the number of pools that were alive when it was constructed. Every
step of every thread is a step of the program (`Pools.step`): a call, one iteration of a loop of the
destructor, or the next step in `thread_function`; each function called under the mutex of a queue
is one step. Of a task the model keeps the calls it makes on pools, in their order; of a task that
throws, those before the exception, which the future of the task stores.
-/

namespace Nanonet

variable {τ : Type*}

/-- A thread: the main thread, or thread `i` of the pool at level `p`. -/
inductive Caller where
  | main
  | worker (p i : Nat)
  deriving DecidableEq, Repr

/-- `dispatch( t )`, or `dispatch_returning( t )`. -/
structure PoolCall (τ : Type*) where
  task : τ
  returning : Bool

/-- What a queue holds: a task, or the wrapper `[ &t ] { t() ; }`, where `t` lives in the frame of
the thread that called `dispatch_returning()`. -/
structure Job (τ : Type*) where
  task : τ
  frame : Option Caller

namespace PoolCall

/-- What the thread `k` queues. -/
def job (c : PoolCall τ) (k : Caller) : Job τ := ⟨c.task, if c.returning then some k else none⟩

/-- The task for the return of which the caller waits, in `wfut.get()`. -/
def awaited (c : PoolCall τ) : Option τ := if c.returning then some c.task else none

end PoolCall

/-- What the code of a thread does with pools. The two loops of `~thread_pool()` of the newest pool
are at iteration `i`. -/
inductive Stmt (τ : Type*) where
  | construct (n : Nat)
  | call (c : PoolCall τ)
  | signalling (i : Nat)
  | joining (i : Nat)

/-- The end of the scope of the newest pool. -/
abbrev Stmt.destroy : Stmt τ := .signalling 0

/-- `n` pools are alive, and the rest of the code closes the scopes of these and of its own pools;
its calls are `ok` where they stand. -/
def Scoped (ok : Nat → τ → Prop) : Nat → List (Stmt τ) → Prop
  | n, [] => n = 0
  | n, .construct _ :: rest => Scoped ok (n + 1) rest
  | n, .call c :: rest => ok n c.task ∧ Scoped ok n rest
  | n + 1, .signalling 0 :: rest => Scoped ok n rest
  | _, _ => False

/-- A program: the level of the pool each task is handed to, the calls that a task makes, and the
code of the main thread, which calls only pools that are in scope. -/
structure Program (τ : Type*) where
  home : τ → Nat
  body : τ → List (PoolCall τ)
  main : List (Stmt τ)
  main_scoped : Scoped (fun n t => home t < n) 0 main

/-- Tasks refer only to pools that are older than the one that runs them. -/
def Program.Layered (P : Program τ) : Prop := ∀ t, ∀ c ∈ P.body t, P.home c.task < P.home t

/-- What a thread has still to do, and the task whose return it waits for. -/
structure Frame (τ : Type*) where
  todo : List (Stmt τ)
  awaited : Option τ

namespace Frame

def idle : Frame τ := ⟨[], none⟩

/-- `t()` of the wrapper has stored the result, `wfut.get()` returns. -/
def resume (f : Frame τ) : Frame τ := ⟨f.todo, none⟩

end Frame

/-- The job that thread `i` is running. -/
def Crew.current (c : Crew τ) (i : Nat) : Option τ := c.threads[i]?.bind Worker.task?

/-- The pools at the levels below `size` are alive; those that were destroyed are kept for the
record. -/
structure Pools (τ : Type*) where
  crews : Nat → Crew (Job τ)
  size : Nat
  frames : Caller → Frame τ
  retired : List (Crew (Job τ))

namespace Pools

def setCrew (s : Pools τ) (p : Nat) (c : Crew (Job τ)) : Pools τ :=
  { s with crews := Function.update s.crews p c }

def setFrame (s : Pools τ) (k : Caller) (f : Frame τ) : Pools τ :=
  { s with frames := Function.update s.frames k f }

section lemmas

variable (s : Pools τ) (p : Nat) (c : Crew (Job τ)) (k : Caller) (f : Frame τ)

@[simp] theorem crews_setCrew : (s.setCrew p c).crews = Function.update s.crews p c := rfl
@[simp] theorem size_setCrew : (s.setCrew p c).size = s.size := rfl
@[simp] theorem frames_setCrew : (s.setCrew p c).frames = s.frames := rfl
@[simp] theorem retired_setCrew : (s.setCrew p c).retired = s.retired := rfl
@[simp] theorem crews_setFrame : (s.setFrame k f).crews = s.crews := rfl
@[simp] theorem size_setFrame : (s.setFrame k f).size = s.size := rfl
@[simp] theorem frames_setFrame : (s.setFrame k f).frames = Function.update s.frames k f := rfl
@[simp] theorem retired_setFrame : (s.setFrame k f).retired = s.retired := rfl

end lemmas

/-! ### The steps -/

/-- A call in the thread `k`, with the code behind it. A pool without threads executes the task on
the spot. -/
def call (P : Program τ) (s : Pools τ) (k : Caller) (c : PoolCall τ) (rest : List (Stmt τ)) :
    Pools τ :=
  let p := P.home c.task
  if (s.crews p).threads.length > 0 then
    (s.setCrew p ((s.crews p).dispatch (c.job k))).setFrame k ⟨rest, c.awaited⟩
  else
    (s.setCrew p ((s.crews p).execute ⟨c.task, none⟩)).setFrame k
      ⟨(P.body c.task).map .call ++ rest, none⟩

def construct (s : Pools τ) (n : Nat) : Pools τ :=
  { s with crews := Function.update s.crews s.size (Crew.start n), size := s.size + 1 }

/-- The queue of the pool at level `p`, the newest one, is deleted. -/
def retire (s : Pools τ) (p : Nat) : Pools τ :=
  { s with
    crews := Function.update s.crews p (Crew.start 0), size := p,
    retired := (s.crews p).free :: s.retired }

section lemmas

variable (s : Pools τ) (n p : Nat)

@[simp] theorem crews_construct :
    (s.construct n).crews = Function.update s.crews s.size (Crew.start n) := rfl
@[simp] theorem size_construct : (s.construct n).size = s.size + 1 := rfl
@[simp] theorem frames_construct : (s.construct n).frames = s.frames := rfl
@[simp] theorem retired_construct : (s.construct n).retired = s.retired := rfl
@[simp] theorem crews_retire :
    (s.retire p).crews = Function.update s.crews p (Crew.start 0) := rfl
@[simp] theorem size_retire : (s.retire p).size = p := rfl
@[simp] theorem frames_retire : (s.retire p).frames = s.frames := rfl
@[simp] theorem retired_retire : (s.retire p).retired = (s.crews p).free :: s.retired := rfl

end lemmas

/-- The next statement of the thread `k`, when it does not block. -/
def exec (P : Program τ) (s : Pools τ) (k : Caller) : Stmt τ → List (Stmt τ) → Option (Pools τ)
  | .construct n, rest => some ((s.construct n).setFrame k ⟨rest, none⟩)
  | .call c, rest => if P.home c.task < s.size then some (s.call P k c rest) else none
  | .signalling i, rest =>
    match s.size with
    | 0 => none
    | p + 1 =>
      if i < (s.crews p).threads.length then
        some ((s.setCrew p (s.crews p).signal).setFrame k ⟨.signalling (i + 1) :: rest, none⟩)
      else some (s.setFrame k ⟨.joining 0 :: rest, none⟩)
  | .joining i, rest =>
    match s.size with
    | 0 => none
    | p + 1 =>
      if i < (s.crews p).threads.length then
        ((s.crews p).join i).map fun c =>
          (s.setCrew p c).setFrame k ⟨.joining (i + 1) :: rest, none⟩
      else some ((s.retire p).setFrame k ⟨rest, none⟩)

/-- A wrapper ends: its caller may go on. -/
def finish (s : Pools τ) (j : Job τ) : Pools τ :=
  match j.frame with
  | none => s
  | some k => s.setFrame k (s.frames k).resume

@[simp] theorem crews_finish (s : Pools τ) (j : Job τ) : (s.finish j).crews = s.crews := by
  rw [finish]
  split <;> rfl

@[simp] theorem size_finish (s : Pools τ) (j : Job τ) : (s.finish j).size = s.size := by
  rw [finish]
  split <;> rfl

@[simp] theorem retired_finish (s : Pools τ) (j : Job τ) : (s.finish j).retired = s.retired := by
  rw [finish]
  split <;> rfl

theorem frames_finish (s : Pools τ) (j : Job τ) (k : Caller) :
    (s.finish j).frames k = if j.frame = some k then (s.frames k).resume else s.frames k := by
  rw [finish]
  split
  · next hj => rw [hj, if_neg (by simp)]
  · next k' hj =>
    rw [hj, frames_setFrame, Function.update_apply]
    by_cases hk : k = k'
    · rw [if_pos hk, if_pos (by rw [hk]), hk]
    · rw [if_neg hk, if_neg (by simpa using Ne.symm hk)]

theorem todo_finish (s : Pools τ) (j : Job τ) (k : Caller) :
    ((s.finish j).frames k).todo = (s.frames k).todo := by
  rw [frames_finish]
  split <;> rfl

/-- The next step of thread `i` at level `p` in `thread_function`: it takes a task and enters it,
takes a marker, or comes back from a task. -/
def work (P : Program τ) (s : Pools τ) (p i : Nat) : Option (Pools τ) :=
  match (s.crews p).threadFunction i with
  | none => none
  | some c =>
    match (s.crews p).current i, c.current i with
    | some j, _ => some ((s.setCrew p c).finish j)
    | none, some j =>
      some ((s.setCrew p c).setFrame (.worker p i) ⟨(P.body j.task).map .call, none⟩)
    | none, none => some (s.setCrew p c)

/-- The next step of a thread, when it does not block. -/
def step (P : Program τ) (s : Pools τ) (k : Caller) : Option (Pools τ) :=
  match s.frames k with
  | ⟨_, some _⟩ => none
  | ⟨x :: rest, none⟩ => s.exec P k x rest
  | ⟨[], none⟩ =>
    match k with
    | .main => none
    | .worker p i => s.work P p i

/-- The main thread is at its first statement, and there are no pools. -/
def start (P : Program τ) : Pools τ where
  crews _ := Crew.start 0
  size := 0
  frames := Function.update (fun _ => .idle) .main ⟨P.main, none⟩
  retired := []

/-- The threads take their steps in any order. -/
def lts (P : Program τ) : Lts (Pools τ) Caller where
  init s := s = start P
  step s k s' := s.step P k = some s'

/-- The main thread has left all its scopes. -/
def Finished (s : Pools τ) : Prop := s.frames .main = .idle

/-- The threads take their steps in this order, as far as none blocks. -/
def run (P : Program τ) (ks : List Caller) : Option (Pools τ) :=
  ks.foldlM (fun s k => s.step P k) (start P)

theorem reachable_of_run {P : Program τ} {ks : List Caller} {s : Pools τ}
    (h : run P ks = some s) : (lts P).Reachable s :=
  Lts.Reachable.foldlM (A := lts P) (fun _ _ _ hstep => hstep) (.init rfl) h

end Pools

/-! ### The program of a test -/

/-- The closures of `test_dispatch_n`. -/
inductive MapTask where
  | workerFunc (j : Nat)
  | increment (i : Nat)
  deriving DecidableEq, Repr

/-- `test_dispatch_n`: `w` workers execute `n` tasks, each of which has the one thread of
`themap_manager` increment the first `m` elements of a map. -/
def testDispatchN (w n m : Nat) (returnValue : Bool) : Program MapTask where
  home
    | .workerFunc _ => 1
    | .increment _ => 0
  body
    | .workerFunc _ => (List.range m).map fun i => ⟨.increment i, returnValue⟩
    | .increment _ => []
  main := [.construct 1, .construct w] ++
    ((List.range n).map fun j => .call ⟨.workerFunc j, false⟩) ++ [.destroy, .destroy]
  main_scoped := by
    show Scoped _ 2 _
    induction List.range n with
    | nil => rfl
    | cons j js ih => exact ⟨Nat.one_lt_two, ih⟩

theorem layered_testDispatchN (w n m : Nat) (returnValue : Bool) :
    (testDispatchN w n m returnValue).Layered := by
  intro t c hc
  cases t with
  | workerFunc j =>
    obtain ⟨i, -, rfl⟩ := List.mem_map.1 hc
    exact Nat.zero_lt_one
  | increment i => cases hc

end Nanonet
