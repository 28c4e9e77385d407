import Mathlib.Logic.Function.Basic
import Nanonet.Base.Stream
import Nanonet.Dispatch.Crew

/-!
# Thread pools

`thread_pool` of `dispatch.cpp` and `dispatch.h`: any number of pool objects on one heap of queues
and threads, under any sequence of constructions, dispatches, moves and destructions, while the
threads run. The two members of a pool are moved one by one, so that nothing in the model ties a
queue to the threads that refer to it; `Ownership` shows that they stay together.

Each iteration of the two loops of the destructor is a step. A destroyed or overwritten
`std::thread` that is still joinable calls `std::terminate()`, and a terminated process takes no
step. A constructor that cannot start one of its threads destroys those that it has started.
-/

namespace Nanonet

/-- `thread_pool`: which queue it owns, and its threads, each named by the queue that was passed to
it and its number there. -/
structure ThreadPool where
  tasks : Option Nat
  workers : List (Nat × Nat)
  deriving DecidableEq, Repr

namespace ThreadPool

def numWorkers (p : ThreadPool) : Nat := p.workers.length

/-- What a pool is after it was moved from. -/
def movedFrom : ThreadPool := ⟨none, []⟩

end ThreadPool

/-- A pool object: alive, or in the first or the second loop of its destructor. -/
inductive PoolObject where
  | absent
  | live (p : ThreadPool)
  | signalling (p : ThreadPool) (i : Nat)
  | joining (p : ThreadPool) (i : Nat)
  deriving DecidableEq, Repr

namespace PoolObject

/-- The pool, with the number of markers its destructor has queued and of threads it has joined. -/
def stage : PoolObject → Option (ThreadPool × Nat × Nat)
  | .absent => none
  | .live p => some (p, 0, 0)
  | .signalling p i => some (p, i, 0)
  | .joining p i => some (p, p.numWorkers, i)

def queue (x : PoolObject) : Option Nat := x.stage.bind fun stage => stage.1.tasks

def IsLive : PoolObject → Prop
  | .live _ => True
  | _ => False

instance : DecidablePred IsLive
  | .live _ => .isTrue trivial
  | .absent | .signalling _ _ | .joining _ _ => .isFalse id

/-- The destructor has not queued the last end marker yet. -/
def BeforeLastMarker : PoolObject → Prop
  | .live _ => True
  | .signalling p i => i < p.numWorkers
  | _ => False

instance : DecidablePred BeforeLastMarker
  | .live _ => .isTrue trivial
  | .signalling p i => inferInstanceAs (Decidable (i < p.numWorkers))
  | .absent | .joining _ _ => .isFalse id

end PoolObject

/-- What the program does with its pools. Of the threads that a constructor asks for, the system
starts so many at most. A dispatch comes from a thread outside of all pools, or from a task that a
worker is running; the destructor and the workers go on step by step. -/
inductive PoolOp (Oid τ : Type*) where
  | construct (o : Oid) (n : Int) (startable : Nat)
  | dispatch (caller : Option (Nat × Nat)) (o : Oid) (t : τ)
  | moveConstruct (dst src : Oid)
  | moveAssign (dst src : Oid)
  | destroy (o : Oid)
  | work (q i : Nat)

structure World (Oid τ : Type*) where
  objects : Oid → PoolObject
  crews : List (Crew τ)
  terminated : Bool

namespace World

variable {Oid τ : Type*}

/-! ### The heap -/

/-- An access to the queue that a `unique_ptr` holds. -/
def onTasks (crews : List (Crew τ)) (tasks : Option Nat) (f : Crew τ → Crew τ) : List (Crew τ) :=
  match tasks with
  | none => crews
  | some q => crews.modify q f

def joinable (s : World Oid τ) (w : Nat × Nat) : Bool :=
  match s.crews[w.1]? with
  | none => false
  | some c => c.joinable w.2

/-- `~thread()` for each of the threads. -/
def destroyThreads (s : World Oid τ) (workers : List (Nat × Nat)) : World Oid τ :=
  { s with terminated := s.terminated || workers.any s.joinable }

/-- `thread::join()`: waits for the thread to return. That of a thread that is not joinable throws,
out of a destructor. -/
def join (s : World Oid τ) (w : Nat × Nat) : Option (World Oid τ) :=
  if s.joinable w then
    match s.crews[w.1]? with
    | none => none
    | some c => (c.join w.2).map fun c => { s with crews := s.crews.set w.1 c }
  else some { s with terminated := true }

/-! ### Dispatching -/

def dispatch (s : World Oid τ) (p : ThreadPool) (t : τ) : Except Exn (World Oid τ) :=
  match p.tasks with
  | none => .error (.runtimeError "using moved-from thread_pool")
  | some q =>
    if p.numWorkers > 0 then .ok { s with crews := s.crews.modify q fun c => c.dispatch t }
    else .ok { s with crews := s.crews.modify q fun c => c.execute t }

/-- The caller is outside of all pools, or a worker that is running a task. -/
def calls (s : World Oid τ) : Option (Nat × Nat) → Bool
  | none => true
  | some (q, i) =>
    match s.crews[q]? with
    | none => false
    | some c =>
      match c.threads[i]? with
      | some ⟨.running _, _, _⟩ => true
      | _ => false

/-- While a pool is destroyed, only its own tasks still call it. -/
def mayDispatch (s : World Oid τ) (caller : Option (Nat × Nat)) : PoolObject → Bool
  | .absent => false
  | .live _ => s.calls caller
  | .signalling p _ | .joining p _ =>
    match caller with
    | none => false
    | some (q, i) => p.tasks == some q && s.calls (some (q, i))

/-- A call that throws leaves the world as it was. -/
def after (s : World Oid τ) : Except Exn (World Oid τ) → World Oid τ
  | .ok s' => s'
  | .error _ => s

/-! ### Construction, moves and destruction -/

def start : World Oid τ := ⟨fun _ => .absent, [], false⟩

variable [DecidableEq Oid]

def setObject (s : World Oid τ) (o : Oid) (x : PoolObject) : World Oid τ :=
  { s with objects := Function.update s.objects o x }

@[simp] theorem objects_setObject_self (s : World Oid τ) (o : Oid) (x : PoolObject) :
    (s.setObject o x).objects o = x := Function.update_self ..

theorem objects_setObject_of_ne (s : World Oid τ) (x : PoolObject) {o o' : Oid} (h : o' ≠ o) :
    (s.setObject o x).objects o' = s.objects o' := Function.update_of_ne h ..

/-- `thread_pool( int n_threads )`. Where the constructor of a thread throws, that of the pool does,
after it destroyed the threads in `workers`; a queue that no thread refers to is deleted then. -/
def threadPool (s : World Oid τ) (o : Oid) (n : Int) (startable : Nat) :
    Except Exn (World Oid τ) :=
  if 0 ≤ n then
    let q := s.crews.length
    let started := min n.toNat startable
    let workers := (List.range started).map fun i => (q, i)
    let s' := { s with crews := s.crews ++ [Crew.start started] }
    if started = n.toNat then .ok (s'.setObject o (.live ⟨some q, workers⟩))
    else if (s'.destroyThreads workers).terminated then .ok (s'.destroyThreads workers)
    else .error (.runtimeError "Resource temporarily unavailable")
  else .error (.runtimeError "thread pool: number of worker threads must be >= 0")

/-- `thread_pool( thread_pool&& ) = default`. -/
def moveConstruct (s : World Oid τ) (dst src : Oid) (p : ThreadPool) : World Oid τ :=
  (s.setObject src (.live .movedFrom)).setObject dst (.live p)

/-- `operator=( thread_pool&& ) = default`: `tasks` deletes the queue it had, then `workers`
destroys the threads it had. A `unique_ptr` assigned to itself keeps its pointer, a vector assigned
to itself ends up empty, as in the library implementations. -/
def moveAssign (s : World Oid τ) (dst src : Oid) (d p : ThreadPool) : World Oid τ :=
  if dst = src then (s.destroyThreads d.workers).setObject dst (.live ⟨d.tasks, []⟩)
  else
    (({ s with crews := onTasks s.crews d.tasks Crew.free }.destroyThreads d.workers).setObject src
      (.live .movedFrom)).setObject dst (.live p)

/-- The next step of `~thread_pool()`, and at its end that of the members, the last one first. -/
def destroy (s : World Oid τ) (o : Oid) : Option (World Oid τ) :=
  match s.objects o with
  | .absent => none
  | .live p =>
    match p.tasks with
    | none => some ((s.destroyThreads p.workers).setObject o .absent)
    | some _ => some (s.setObject o (.signalling p 0))
  | .signalling p i =>
    if i < p.numWorkers then
      some ({ s with crews := onTasks s.crews p.tasks Crew.signal }.setObject o
        (.signalling p (i + 1)))
    else some (s.setObject o (.joining p 0))
  | .joining p i =>
    match p.workers[i]? with
    | some w => (s.join w).map fun s => s.setObject o (.joining p (i + 1))
    | none =>
      let s := s.destroyThreads p.workers
      some ({ s with crews := onTasks s.crews p.tasks Crew.free }.setObject o .absent)

/-! ### Runs -/

/-- The step of an operation, when it may be called and does not block. -/
def step (s : World Oid τ) : PoolOp Oid τ → Option (World Oid τ)
  | .construct o n startable =>
    match s.objects o with
    | .absent => some (s.after (s.threadPool o n startable))
    | _ => none
  | .dispatch caller o t =>
    match (s.objects o).stage with
    | some (p, _, _) =>
      if s.mayDispatch caller (s.objects o) then some (s.after (s.dispatch p t)) else none
    | none => none
  | .moveConstruct dst src =>
    match s.objects dst, s.objects src with
    | .absent, .live p => some (s.moveConstruct dst src p)
    | _, _ => none
  | .moveAssign dst src =>
    match s.objects dst, s.objects src with
    | .live d, .live p => some (s.moveAssign dst src d p)
    | _, _ => none
  | .destroy o => s.destroy o
  | .work q i =>
    match s.crews[q]? with
    | some c => (c.threadFunction i).map fun c => { s with crews := s.crews.set q c }
    | none => none

/-- All pools of a process, until it is terminated. -/
def lts (Oid τ : Type*) [DecidableEq Oid] : Lts (World Oid τ) (PoolOp Oid τ) where
  init s := s = start
  step s l s' := s.terminated = false ∧ s.step l = some s'

/-- The guard that lets a dispatch through only to an object that satisfies `ok`. -/
def DispatchOnly (ok : PoolObject → Prop) (s : World Oid τ) : PoolOp Oid τ → Prop
  | .dispatch _ o _ => ok (s.objects o)
  | _ => True

instance (ok : PoolObject → Prop) [DecidablePred ok] (s : World Oid τ) :
    DecidablePred (DispatchOnly ok s)
  | .dispatch _ o _ => inferInstanceAs (Decidable (ok (s.objects o)))
  | .construct _ _ _ | .moveConstruct _ _ | .moveAssign _ _ | .destroy _ | .work _ _ =>
    .isTrue trivial

/-- Runs the operations that the guard lets through, one after the other. -/
def run (guard : World Oid τ → PoolOp Oid τ → Bool) (ops : List (PoolOp Oid τ)) :
    Option (World Oid τ) :=
  ops.foldlM (fun s l => if !s.terminated && guard s l then s.step l else none) start

theorem reachable_of_run (guard : World Oid τ → PoolOp Oid τ → Prop)
    [∀ s l, Decidable (guard s l)] (ops : List (PoolOp Oid τ))
    (h : (run (fun s l => guard s l) ops).isSome = true) :
    ((lts Oid τ).restrict guard).Reachable ((run (fun s l => guard s l) ops).get h) := by
  have hstep : ∀ (s : World Oid τ) (l : PoolOp Oid τ) (s' : World Oid τ),
      (if !s.terminated && decide (guard s l) then s.step l else none) = some s' →
        ((lts Oid τ).restrict guard).step s l s' := by
    intro s l s' hstep
    split at hstep
    · next hguard =>
      rw [Bool.and_eq_true, Bool.not_eq_true', decide_eq_true_iff] at hguard
      exact ⟨hguard.2, hguard.1, hstep⟩
    · cases hstep
  exact Lts.Reachable.foldlM hstep (.init rfl) (Option.some_get h).symm

end World

end Nanonet
