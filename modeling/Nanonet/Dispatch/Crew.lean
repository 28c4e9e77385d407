import Mathlib.Algebra.GroupWithZero.Nat
import Nanonet.Lib.Channel
import Nanonet.Lib.EndMarkers

/-!
# The worker threads of a queue

`thread_function` of `dispatch.cpp`, and what happens to one queue and the threads that were given
a reference to it, whoever owns them. The queue is the FIFO channel that `safe_queue` simulates, so
a `push()` or a `pop()` is one step, and a thread in `tasks.pop()` is blocked while the queue is
empty. `dispatched` are the tasks whose `dispatch()` was accepted, `executed` those that have run.

A crew takes the steps of `Crew.Step`, at any time and in any order (`Crew.lts`); the invariants
below hold for all of them, and say what is left once every thread has returned.
-/

namespace Nanonet

theorem exists_append_of_getElem? {α : Type*} {l : List α} {i : Nat} {a : α} (h : l[i]? = some a) :
    ∃ xs ys, l = xs ++ a :: ys ∧ ∀ b, l.set i b = xs ++ b :: ys := by
  obtain ⟨hi, ha⟩ := List.getElem?_eq_some_iff.1 h
  refine ⟨l.take i, l.drop (i + 1), ?_, fun b => ?_⟩
  · rw [← ha, List.getElem_cons_drop, List.take_append_drop]
  · rw [List.set_eq_take_append_cons_drop, if_pos hi]

/-- `task_and_continue`; `none` is the end marker, whose second component is false. -/
abbrev TaskAndContinue (τ : Type*) := Option τ

/-- Where a thread is in `thread_function`. -/
inductive WorkerPc (τ : Type*) where
  | popping
  | running (t : τ)
  | returned

/-- A `std::thread` of the pool, with the end markers it popped and the calls of `join()` on it. -/
structure Worker (τ : Type*) where
  pc : WorkerPc τ
  ends : Nat
  joins : Nat

namespace Worker

variable {τ : Type*}

/-- The task in `tac.first()`. -/
def task? (w : Worker τ) : Option τ :=
  match w.pc with
  | .running t => some t
  | _ => none

theorem task?_eq_some {w : Worker τ} {t : τ} (h : w.pc = .running t) : w.task? = some t := by
  rw [task?, h]

theorem task?_eq_none {w : Worker τ} (h : ∀ t, w.pc ≠ .running t) : w.task? = none := by
  rw [task?]
  split
  · next t ht => exact absurd ht (h t)
  · rfl

/-- The markers a thread has popped by the time it is at `pc`. -/
def endsAt : WorkerPc τ → Nat
  | .returned => 1
  | _ => 0

/-- A thread returns with the first marker it pops, and is joined after it has returned. -/
structure Inv (w : Worker τ) : Prop where
  ends : w.ends = endsAt w.pc
  joins : 0 < w.joins → w.pc = .returned

end Worker

/-- A queue, the threads that refer to it, and whether it was deleted. -/
structure Crew (τ : Type*) where
  tasks : Channel (TaskAndContinue τ)
  threads : List (Worker τ)
  dispatched : List τ
  executed : List τ
  freed : Bool

namespace Crew

variable {τ : Type*}

/-- A new queue with `n` threads on it. -/
def start (n : Nat) : Crew τ :=
  ⟨⟨[], [], []⟩, List.replicate n ⟨.popping, 0, 0⟩, [], [], false⟩

/-- `tasks->push( task_and_continue{ std::move( t ) , true } )`. -/
def dispatch (c : Crew τ) (t : τ) : Crew τ :=
  { c with tasks := c.tasks.push (some t), dispatched := c.dispatched ++ [t] }

/-- `t() ; t.get_future().get()`, in the thread that dispatches. -/
def execute (c : Crew τ) (t : τ) : Crew τ :=
  { c with dispatched := c.dispatched ++ [t], executed := c.executed ++ [t] }

/-- `tasks->push( task_and_continue{ std::move( empty ) , false } )`. -/
def signal (c : Crew τ) : Crew τ := { c with tasks := c.tasks.push none }

/-- The next step of thread `i` in `thread_function`, when it has one. -/
def threadFunction (c : Crew τ) (i : Nat) : Option (Crew τ) :=
  match c.threads[i]? with
  | some ⟨.popping, ends, joins⟩ =>
    match c.tasks.pop with
    | some (some t, tasks) =>
      some { c with tasks := tasks, threads := c.threads.set i ⟨.running t, ends, joins⟩ }
    | some (none, tasks) =>
      some { c with tasks := tasks, threads := c.threads.set i ⟨.returned, ends + 1, joins⟩ }
    | none => none
  | some ⟨.running t, ends, joins⟩ =>
    some { c with executed := c.executed ++ [t],
                  threads := c.threads.set i ⟨.popping, ends, joins⟩ }
  | _ => none

/-- `workers[ i ].join()` of a joinable thread: it waits for the thread to return. -/
def join (c : Crew τ) (i : Nat) : Option (Crew τ) :=
  match c.threads[i]? with
  | some ⟨.returned, ends, 0⟩ => some { c with threads := c.threads.set i ⟨.returned, ends, 1⟩ }
  | _ => none

def joinable (c : Crew τ) (i : Nat) : Bool :=
  match c.threads[i]? with
  | some w => w.joins == 0
  | none => false

/-- The queue is deleted. -/
def free (c : Crew τ) : Crew τ := { c with freed := true }

/-! ### What may happen to a crew -/

inductive Action (τ : Type*) where
  | dispatch (t : τ)
  | signal
  | work (i : Nat)
  | join (i : Nat)
  | free

/-- Tasks are queued when there are threads and executed on the spot otherwise, and no more markers
are queued than there are threads. -/
inductive Step : Crew τ → Action τ → Crew τ → Prop where
  | dispatch {c : Crew τ} (t : τ) : c.threads ≠ [] → Step c (.dispatch t) (c.dispatch t)
  | execute {c : Crew τ} (t : τ) : c.threads = [] → Step c (.dispatch t) (c.execute t)
  | signal {c : Crew τ} : markers c.tasks.pushed < c.threads.length → Step c .signal c.signal
  | work {c c' : Crew τ} {i : Nat} : c.threadFunction i = some c' → Step c (.work i) c'
  | join {c c' : Crew τ} {i : Nat} : c.join i = some c' → Step c (.join i) c'
  | free {c : Crew τ} : Step c .free c.free

def lts (τ : Type*) : Lts (Crew τ) (Action τ) where
  init c := ∃ n, c = start n
  step := Step

/-- The guard that lets a dispatch through only in a state that satisfies `ok`. -/
def DispatchOnly (ok : Crew τ → Prop) (c : Crew τ) : Action τ → Prop
  | .dispatch _ => ok c
  | _ => True

/-! ### One step of a thread -/

/-- What `thread_function` does next: it takes a task, takes a marker, or finishes a task. -/
theorem threadFunction_cases {c c' : Crew τ} {i : Nat} (h : c.threadFunction i = some c') :
    ∃ ws w ws', c.threads = ws ++ w :: ws' ∧
      ((∃ t rest, w.pc = .popping ∧ c.tasks.content = some t :: rest ∧
          c' = { c with tasks := ⟨c.tasks.pushed, c.tasks.popped ++ [some t], rest⟩,
                        threads := ws ++ ⟨.running t, w.ends, w.joins⟩ :: ws' }) ∨
        (∃ rest, w.pc = .popping ∧ c.tasks.content = none :: rest ∧
          c' = { c with tasks := ⟨c.tasks.pushed, c.tasks.popped ++ [none], rest⟩,
                        threads := ws ++ ⟨.returned, w.ends + 1, w.joins⟩ :: ws' }) ∨
        ∃ t, w.pc = .running t ∧
          c' = { c with executed := c.executed ++ [t],
                        threads := ws ++ ⟨.popping, w.ends, w.joins⟩ :: ws' }) := by
  rw [threadFunction] at h
  split at h
  · next ends joins hw =>
    obtain ⟨ws, ws', hthreads, hset⟩ := exists_append_of_getElem? hw
    refine ⟨ws, _, ws', hthreads, ?_⟩
    split at h
    · next t tasks hpop =>
      obtain ⟨rest, hcontent, rfl⟩ := Channel.pop_eq_some hpop
      cases h
      exact .inl ⟨t, rest, rfl, hcontent, by rw [hset]⟩
    · next tasks hpop =>
      obtain ⟨rest, hcontent, rfl⟩ := Channel.pop_eq_some hpop
      cases h
      exact .inr (.inl ⟨rest, rfl, hcontent, by rw [hset]⟩)
    · cases h
  · next t ends joins hw =>
    obtain ⟨ws, ws', hthreads, hset⟩ := exists_append_of_getElem? hw
    cases h
    exact ⟨ws, _, ws', hthreads, .inr (.inr ⟨t, rfl, by rw [hset]⟩)⟩
  · cases h

theorem join_cases {c c' : Crew τ} {i : Nat} (h : c.join i = some c') :
    ∃ ws w ws', c.threads = ws ++ w :: ws' ∧ w.pc = .returned ∧ w.joins = 0 ∧
      c' = { c with threads := ws ++ ⟨.returned, w.ends, 1⟩ :: ws' } := by
  rw [join] at h
  split at h
  · next ends hw =>
    obtain ⟨ws, ws', hthreads, hset⟩ := exists_append_of_getElem? hw
    cases h
    exact ⟨ws, _, ws', hthreads, rfl, rfl, by rw [hset]⟩
  · cases h

theorem pushed_of_work {c c' : Crew τ} {i : Nat} (h : c.threadFunction i = some c') :
    c'.tasks.pushed = c.tasks.pushed ∧ c'.threads.length = c.threads.length := by
  obtain ⟨ws, w, ws', hthreads, hcases⟩ := threadFunction_cases h
  obtain ⟨t, rest, -, -, rfl⟩ | ⟨rest, -, -, rfl⟩ | ⟨t, -, rfl⟩ := hcases <;> simp [hthreads]

theorem pushed_of_join {c c' : Crew τ} {i : Nat} (h : c.join i = some c') :
    c'.tasks.pushed = c.tasks.pushed ∧ c'.threads.length = c.threads.length := by
  obtain ⟨ws, w, ws', hthreads, -, -, rfl⟩ := join_cases h
  simp [hthreads]

/-! ### The invariant -/

/-- The tasks that have begun and not finished. -/
def running (c : Crew τ) : List τ := c.threads.filterMap Worker.task?

theorem running_of_threads {c : Crew τ} {ws ws' : List (Worker τ)} {w : Worker τ}
    (h : c.threads = ws ++ w :: ws') :
    c.running = ws.filterMap Worker.task? ++ (w.task?.toList ++ ws'.filterMap Worker.task?) := by
  rw [running, h, List.filterMap_append]
  cases hw : w.task? with
  | none => rw [List.filterMap_cons_none hw, Option.toList_none, List.nil_append]
  | some t => rw [List.filterMap_cons_some hw, Option.toList_some, List.singleton_append]

/-- The accepted tasks, from the ones executed first to the ones queued last. -/
def accepted (c : Crew τ) : List τ := c.executed ++ c.running ++ c.tasks.content.reduceOption

/-- Every marker that was popped made one thread return, and every accepted task was executed, is
running or is queued; with one thread at most, in the order of the dispatches. -/
structure Inv (c : Crew τ) : Prop where
  workers : ∀ w ∈ c.threads, w.Inv
  taken : (c.threads.map Worker.ends).sum = markers c.tasks.popped
  signalled : markers c.tasks.pushed ≤ c.threads.length
  direct : c.threads = [] → c.tasks.content = []
  accounted : c.accepted.Perm c.dispatched
  inOrder : c.threads.length ≤ 1 → c.accepted = c.dispatched

theorem Inv.start (n : Nat) : (Crew.start n : Crew τ).Inv where
  workers w hw := by
    rw [List.eq_of_mem_replicate hw]
    exact ⟨rfl, fun h => absurd h (Nat.lt_irrefl 0)⟩
  taken := by simp [Crew.start]
  signalled := Nat.zero_le _
  direct _ := rfl
  accounted := by simp [accepted, running, Crew.start, Worker.task?]
  inOrder _ := by simp [accepted, running, Crew.start, Worker.task?]

theorem perm_take (executed xs ys queued : List τ) (t : τ) :
    (executed ++ (xs ++ t :: ys) ++ queued).Perm (executed ++ (xs ++ ys) ++ t :: queued) := by
  refine List.Perm.trans ?_ List.perm_middle.symm
  simp only [List.append_assoc, List.cons_append]
  rw [← List.append_assoc executed xs, ← List.append_assoc executed xs]
  exact List.perm_middle

theorem perm_finish (executed xs ys queued : List τ) (t : τ) :
    (executed ++ [t] ++ (xs ++ ys) ++ queued).Perm (executed ++ (xs ++ t :: ys) ++ queued) := by
  simp only [List.append_assoc, List.cons_append, List.nil_append]
  exact List.Perm.append_left executed List.perm_middle.symm

section work

variable {c c' : Crew τ} {i : Nat}

theorem Inv.workers_work (h : c.Inv) (hwork : c.threadFunction i = some c') :
    ∀ w ∈ c'.threads, w.Inv := by
  obtain ⟨ws, w, ws', hthreads, hcases⟩ := threadFunction_cases hwork
  have hinv := h.workers
  rw [hthreads, List.forall_mem_append, List.forall_mem_cons] at hinv
  obtain ⟨hws, hw, hws'⟩ := hinv
  -- a thread that still takes steps was not joined
  have hjoins : w.pc ≠ .returned → w.joins = 0 := fun hpc =>
    Nat.eq_zero_of_not_pos fun hpos => hpc (hw.joins hpos)
  obtain ⟨t, rest, hpc, hcontent, rfl⟩ | ⟨rest, hpc, hcontent, rfl⟩ | ⟨t, hpc, rfl⟩ := hcases <;>
    rw [List.forall_mem_append, List.forall_mem_cons] <;> refine ⟨hws, ⟨?_, ?_⟩, hws'⟩ <;>
    simp [hw.ends, hjoins, hpc, Worker.endsAt]

theorem Inv.taken_work (h : c.Inv) (hwork : c.threadFunction i = some c') :
    (c'.threads.map Worker.ends).sum = markers c'.tasks.popped := by
  obtain ⟨ws, w, ws', hthreads, hcases⟩ := threadFunction_cases hwork
  have htaken := h.taken
  obtain ⟨t, rest, -, -, rfl⟩ | ⟨rest, -, -, rfl⟩ | ⟨t, -, rfl⟩ := hcases <;>
    simp [hthreads] at htaken ⊢ <;> omega

theorem Inv.accounted_work (h : c.Inv) (hwork : c.threadFunction i = some c') :
    c'.accepted.Perm c'.dispatched := by
  obtain ⟨ws, w, ws', hthreads, hcases⟩ := threadFunction_cases hwork
  have haccounted := h.accounted
  rw [accepted, running_of_threads hthreads] at haccounted
  obtain ⟨t, rest, hpc, hcontent, rfl⟩ | ⟨rest, hpc, hcontent, rfl⟩ | ⟨t, hpc, rfl⟩ := hcases
  · rw [Worker.task?_eq_none (by simp [hpc]), hcontent,
      List.reduceOption_cons_of_some] at haccounted
    rw [accepted, running_of_threads rfl]
    exact (perm_take _ _ _ _ t).trans haccounted
  · rw [Worker.task?_eq_none (by simp [hpc]), hcontent,
      List.reduceOption_cons_of_none] at haccounted
    rw [accepted, running_of_threads rfl]
    exact haccounted
  · rw [Worker.task?_eq_some hpc] at haccounted
    rw [accepted, running_of_threads rfl]
    exact (perm_finish _ _ _ _ t).trans haccounted

theorem Inv.inOrder_work (h : c.Inv) (hwork : c.threadFunction i = some c')
    (hone : c'.threads.length ≤ 1) : c'.accepted = c'.dispatched := by
  obtain ⟨ws, w, ws', hthreads, hcases⟩ := threadFunction_cases hwork
  have hlen : c'.threads.length = ws.length + (ws'.length + 1) := by
    obtain ⟨t, rest, -, -, rfl⟩ | ⟨rest, -, -, rfl⟩ | ⟨t, -, rfl⟩ := hcases <;> simp
  have hws : ws = [] := List.length_eq_zero_iff.1 (by omega)
  have hws' : ws' = [] := List.length_eq_zero_iff.1 (by omega)
  subst hws hws'
  have horder := h.inOrder (by simp [hthreads])
  rw [accepted, running_of_threads hthreads] at horder
  obtain ⟨t, rest, hpc, hcontent, rfl⟩ | ⟨rest, hpc, hcontent, rfl⟩ | ⟨t, hpc, rfl⟩ := hcases
  · rw [Worker.task?_eq_none (by simp [hpc]), hcontent] at horder
    rw [accepted, running_of_threads rfl, ← horder]
    simp [Worker.task?]
  · rw [Worker.task?_eq_none (by simp [hpc]), hcontent] at horder
    rw [accepted, running_of_threads rfl, ← horder]
    simp [Worker.task?]
  · rw [Worker.task?_eq_some hpc] at horder
    rw [accepted, running_of_threads rfl, ← horder]
    simp [Worker.task?]

theorem Inv.work (h : c.Inv) (hwork : c.threadFunction i = some c') : c'.Inv := by
  have hworkers := h.workers_work hwork
  have htaken := h.taken_work hwork
  have haccounted := h.accounted_work hwork
  have horder := h.inOrder_work hwork
  obtain ⟨hpushed, hlen⟩ := pushed_of_work hwork
  refine ⟨hworkers, htaken, ?_, fun hnil => ?_, haccounted, horder⟩
  · rw [hpushed, hlen]
    exact h.signalled
  · obtain ⟨ws, w, ws', hthreads, -⟩ := threadFunction_cases hwork
    rw [hnil, hthreads] at hlen
    simp at hlen

end work

theorem Inv.join {c c' : Crew τ} {i : Nat} (h : c.Inv) (hjoin : c.join i = some c') : c'.Inv := by
  obtain ⟨ws, w, ws', hthreads, hpc, -, rfl⟩ := join_cases hjoin
  obtain ⟨hworkers, htaken, hsignalled, -, haccounted, horder⟩ := h
  rw [hthreads, List.forall_mem_append, List.forall_mem_cons] at hworkers
  obtain ⟨hws, hw, hws'⟩ := hworkers
  have hrunning :
      running { c with threads := ws ++ ⟨.returned, w.ends, 1⟩ :: ws' } = c.running := by
    rw [running_of_threads hthreads, running_of_threads rfl,
      Worker.task?_eq_none (w := w) (by simp [hpc])]
    rfl
  refine ⟨?_, ?_, ?_, fun hnil => ?_, ?_, fun hone => ?_⟩
  · rw [List.forall_mem_append, List.forall_mem_cons]
    exact ⟨hws, ⟨by rw [hw.ends, hpc], fun _ => rfl⟩, hws'⟩
  · simpa [hthreads] using htaken
  · simpa [hthreads] using hsignalled
  · simp at hnil
  · rw [accepted, hrunning]
    exact haccounted
  · rw [accepted, hrunning]
    exact horder (by simpa [hthreads] using hone)

theorem Inv.step {c c' : Crew τ} {a : Action τ} (h : c.Inv) (hstep : Step c a c') : c'.Inv := by
  cases hstep with
  | dispatch t hne =>
    refine ⟨h.workers, h.taken, ?_, fun hnil => absurd hnil hne, ?_, fun hone => ?_⟩
    · simpa [Crew.dispatch, Channel.push] using h.signalled
    · simpa [accepted, running, Crew.dispatch, Channel.push, List.reduceOption_append] using
        h.accounted.append_right [t]
    · have horder := h.inOrder hone
      simp [accepted, running, Crew.dispatch, Channel.push, List.reduceOption_append, ← horder]
  | execute t hnil =>
    refine ⟨h.workers, h.taken, h.signalled, h.direct, ?_, fun hone => ?_⟩
    all_goals
      have horder := h.inOrder (by simp [hnil])
      simp [accepted, running, Crew.execute, hnil, h.direct hnil, ← horder]
  | signal hlt =>
    refine ⟨h.workers, h.taken, ?_, fun hnil => ?_, ?_, fun hone => ?_⟩
    · simpa [Crew.signal, Channel.push] using Nat.succ_le_of_lt hlt
    · have hzero : c.threads.length = 0 := List.length_eq_zero_iff.2 hnil
      omega
    · simpa [accepted, running, Crew.signal, Channel.push, List.reduceOption_append] using
        h.accounted
    · simpa [accepted, running, Crew.signal, Channel.push, List.reduceOption_append] using
        h.inOrder hone
  | work hwork => exact h.work hwork
  | join hjoin => exact h.join hjoin
  | free => exact ⟨h.workers, h.taken, h.signalled, h.direct, h.accounted, h.inOrder⟩

theorem inv {c : Crew τ} (h : (lts τ).Reachable c) : c.Inv := by
  refine h.invariant ?_ fun _ _ _ _ hinv hstep => hinv.step hstep
  rintro c ⟨n, rfl⟩
  exact Inv.start n

/-! ### The queue of a crew -/

theorem simulates : Lts.Simulates (lts τ) (Channel.lts (TaskAndContinue τ) none) Crew.tasks where
  init c hc := by
    obtain ⟨n, rfl⟩ := hc
    rfl
  step c a c' _ _ hstep := by
    cases hstep with
    | dispatch t _ => exact .inr ⟨_, Channel.push_step c.tasks (some t)⟩
    | signal _ => exact .inr ⟨_, Channel.push_step c.tasks none⟩
    | work hwork =>
      obtain ⟨ws, w, ws', -, hcases⟩ := threadFunction_cases hwork
      obtain ⟨t, rest, -, hcontent, rfl⟩ | ⟨rest, -, hcontent, rfl⟩ | ⟨t, -, rfl⟩ := hcases
      · exact .inr ⟨_, Channel.pop_step (by rw [Channel.pop, hcontent])⟩
      · exact .inr ⟨_, Channel.pop_step (by rw [Channel.pop, hcontent])⟩
      · exact .inl rfl
    | join hjoin =>
      obtain ⟨ws, w, ws', -, -, -, rfl⟩ := join_cases hjoin
      exact .inl rfl
    | _ => exact .inl rfl

theorem fifo_order {c : Crew τ} (h : (lts τ).Reachable c) :
    c.tasks.popped ++ c.tasks.content = c.tasks.pushed :=
  (simulates.invariant (fun _ => Channel.fifo) h).1

end Crew

end Nanonet
