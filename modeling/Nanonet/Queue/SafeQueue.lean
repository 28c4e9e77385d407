import Mathlib.Logic.Function.Basic
import Nanonet.Lib.Channel

/-!
# The thread-safe queue

`safe_queue` of `safe_queue.h`, at the grain of its mutex and its two condition variables: any
number of threads, each at some point of a `push()` or a `pop()`, of which one takes a step at a
time. `wait` gives the mutex up and puts the thread to sleep in one step; a thread that was woken,
by a notification or spuriously, has to get the mutex again and re-check. `pushed` and `popped` are
the elements in the order of the critical sections.

With its program counters and its mutex forgotten, the queue is a FIFO channel (`simulates`).
-/

namespace Nanonet

/-- What the constructor lets through: a capacity of at least one, used by a bounded queue only. -/
structure QueueConfig where
  bounded : Bool
  capacity : Nat
  one_le : 1 ≤ capacity

def QueueConfig.limit (cfg : QueueConfig) : Option Nat :=
  if cfg.bounded then some cfg.capacity else none

/-- Where a thread is in `push( t )` or `pop()`; `woken` after a wait. -/
inductive QueuePc (α : Type*) where
  | idle
  | enterPush (t : α) (woken : Bool)
  | checkPush (t : α) (woken : Bool)
  | sleepPush (t : α)
  | leavePush
  | notifyData
  | enterPop (woken : Bool)
  | checkPop (woken : Bool)
  | sleepPop
  | leavePop (t : α)
  | notifySpace (t : α)

/-- A call, a step of the code, or a spurious wakeup. -/
inductive StepKind where
  | call | code | spurious
  deriving DecidableEq, Repr

structure SafeQueue (Tid α : Type*) where
  q : List α
  owner : Option Tid
  pc : Tid → QueuePc α
  pushed : List α
  popped : List α

namespace SafeQueue

variable {Tid α : Type*} [DecidableEq Tid]

/-- Thread `i` goes on at `pc`. -/
def goto (s : SafeQueue Tid α) (i : Tid) (pc : QueuePc α) : SafeQueue Tid α :=
  { s with pc := Function.update s.pc i pc }

@[simp] theorem goto_q (s : SafeQueue Tid α) (i : Tid) (pc : QueuePc α) :
    (s.goto i pc).q = s.q := rfl

@[simp] theorem goto_owner (s : SafeQueue Tid α) (i : Tid) (pc : QueuePc α) :
    (s.goto i pc).owner = s.owner := rfl

@[simp] theorem goto_pushed (s : SafeQueue Tid α) (i : Tid) (pc : QueuePc α) :
    (s.goto i pc).pushed = s.pushed := rfl

@[simp] theorem goto_popped (s : SafeQueue Tid α) (i : Tid) (pc : QueuePc α) :
    (s.goto i pc).popped = s.popped := rfl

@[simp] theorem goto_pc (s : SafeQueue Tid α) (i : Tid) (pc : QueuePc α) :
    (s.goto i pc).pc = Function.update s.pc i pc := rfl

/-- `BOUNDED` and `q.size() == capacity()`. -/
def Full (cfg : QueueConfig) (q : List α) : Prop := cfg.bounded = true ∧ q.length = cfg.capacity

inductive Step (cfg : QueueConfig) : SafeQueue Tid α → Tid × StepKind → SafeQueue Tid α → Prop where
  | callPush {s : SafeQueue Tid α} {i : Tid} (t : α) : s.pc i = .idle →
      Step cfg s (i, .call) (s.goto i (.enterPush t false))
  | callPop {s : SafeQueue Tid α} {i : Tid} : s.pc i = .idle →
      Step cfg s (i, .call) (s.goto i (.enterPop false))
  -- push()
  | lockPush {s : SafeQueue Tid α} {i : Tid} {t : α} {w : Bool} : s.pc i = .enterPush t w →
      s.owner = none → Step cfg s (i, .code) ({ s with owner := some i }.goto i (.checkPush t w))
  | waitPush {s : SafeQueue Tid α} {i : Tid} {t : α} {w : Bool} : s.pc i = .checkPush t w →
      Full cfg s.q → Step cfg s (i, .code) ({ s with owner := none }.goto i (.sleepPush t))
  | push {s : SafeQueue Tid α} {i : Tid} {t : α} {w : Bool} : s.pc i = .checkPush t w →
      ¬ Full cfg s.q → Step cfg s (i, .code)
        ({ s with q := s.q ++ [t], pushed := s.pushed ++ [t] }.goto i .leavePush)
  | unlockPush {s : SafeQueue Tid α} {i : Tid} : s.pc i = .leavePush →
      Step cfg s (i, .code) ({ s with owner := none }.goto i .notifyData)
  | notifyData {s : SafeQueue Tid α} {i : Tid} (j : Tid) : s.pc i = .notifyData →
      s.pc j = .sleepPop → Step cfg s (i, .code) ((s.goto i .idle).goto j (.enterPop true))
  | notifyNoData {s : SafeQueue Tid α} {i : Tid} : s.pc i = .notifyData →
      (∀ j, s.pc j ≠ .sleepPop) → Step cfg s (i, .code) (s.goto i .idle)
  -- pop()
  | lockPop {s : SafeQueue Tid α} {i : Tid} {w : Bool} : s.pc i = .enterPop w →
      s.owner = none → Step cfg s (i, .code) ({ s with owner := some i }.goto i (.checkPop w))
  | waitPop {s : SafeQueue Tid α} {i : Tid} {w : Bool} : s.pc i = .checkPop w →
      s.q = [] → Step cfg s (i, .code) ({ s with owner := none }.goto i .sleepPop)
  | pop {s : SafeQueue Tid α} {i : Tid} {w : Bool} {t : α} {q : List α} : s.pc i = .checkPop w →
      s.q = t :: q → Step cfg s (i, .code)
        ({ s with q := q, popped := s.popped ++ [t] }.goto i (.leavePop t))
  | unlockPop {s : SafeQueue Tid α} {i : Tid} {t : α} : s.pc i = .leavePop t →
      Step cfg s (i, .code) ({ s with owner := none }.goto i (.notifySpace t))
  | notifySpace {s : SafeQueue Tid α} {i : Tid} {t u : α} (j : Tid) : s.pc i = .notifySpace t →
      cfg.bounded = true → s.pc j = .sleepPush u →
      Step cfg s (i, .code) ((s.goto i .idle).goto j (.enterPush u true))
  | notifyNoSpace {s : SafeQueue Tid α} {i : Tid} {t : α} : s.pc i = .notifySpace t →
      (cfg.bounded = true → ∀ j u, s.pc j ≠ .sleepPush u) → Step cfg s (i, .code) (s.goto i .idle)
  -- wait() may return without a notification
  | wakePush {s : SafeQueue Tid α} {i : Tid} {t : α} : s.pc i = .sleepPush t →
      Step cfg s (i, .spurious) (s.goto i (.enterPush t true))
  | wakePop {s : SafeQueue Tid α} {i : Tid} : s.pc i = .sleepPop →
      Step cfg s (i, .spurious) (s.goto i (.enterPop true))

/-- An empty queue that no thread is using. -/
def start : SafeQueue Tid α := ⟨[], none, fun _ => .idle, [], []⟩

/-- The queue under any number of threads. -/
def lts (Tid α : Type*) [DecidableEq Tid] (cfg : QueueConfig) :
    Lts (SafeQueue Tid α) (Tid × StepKind) where
  init s := s = start
  step := Step cfg

def channel (s : SafeQueue Tid α) : Channel α := ⟨s.pushed, s.popped, s.q⟩

omit [DecidableEq Tid] in
theorem room_of_not_full {cfg : QueueConfig} {s : SafeQueue Tid α} (h : ¬ Full cfg s.q)
    (hlen : ∀ n ∈ cfg.limit, s.q.length ≤ n) : Channel.Room cfg.limit s.channel := by
  intro n hn
  have hle := hlen n hn
  cases hbounded : cfg.bounded with
  | false => simp [QueueConfig.limit, hbounded] at hn
  | true =>
    obtain rfl : cfg.capacity = n := by simpa [QueueConfig.limit, hbounded] using hn
    exact Nat.lt_of_le_of_ne hle fun heq => h ⟨hbounded, heq⟩

/-- The critical sections are the steps of a FIFO channel, and every other step leaves it alone. -/
theorem simulates (cfg : QueueConfig) :
    Lts.Simulates (lts Tid α cfg) (Channel.lts α cfg.limit) channel where
  init s hs := by
    subst hs
    rfl
  step s l s' _ hchannel hstep := by
    cases hstep with
    | push _ hfull =>
      exact .inr ⟨_, .push _ _ (room_of_not_full hfull (Channel.fifo hchannel).2)⟩
    | @pop i w t q _ hq =>
      refine .inr ⟨.pop t, ?_⟩
      rw [channel, hq]
      exact .pop s.pushed s.popped q t
    | _ => exact .inl rfl

/-- **First in, first out.** In every reachable state the popped elements followed by the content
are the pushed elements, and a bounded queue holds no more than its capacity. -/
theorem popped_append_q (cfg : QueueConfig) {s : SafeQueue Tid α}
    (h : (lts Tid α cfg).Reachable s) :
    s.popped ++ s.q = s.pushed ∧ (cfg.bounded = true → s.q.length ≤ cfg.capacity) := by
  obtain ⟨horder, hlen⟩ := (simulates cfg).invariant (fun _ => Channel.fifo) h
  exact ⟨horder, fun hbounded => hlen _ (by simp [QueueConfig.limit, hbounded])⟩

/-- A thread pushes 7 and 8, where there is room for one, and another one has popped the first. -/
theorem popped_append_q_two :
    ∃ s : SafeQueue Bool Nat, (lts Bool Nat ⟨true, 1, Nat.le_refl 1⟩).Reachable s ∧
      s.popped = [7] ∧ s.q = [8] ∧ s.popped ++ s.q = s.pushed ∧ s.q.length ≤ 1 := by
  have hpushed : (lts Bool Nat ⟨true, 1, Nat.le_refl 1⟩).Reachable _ :=
    .step (.step (.step (.step (.step (.init rfl) (.callPush (s := start) (i := true) 7 rfl))
      (.lockPush (i := true) (t := 7) (w := false) rfl rfl))
      (.push (i := true) (t := 7) (w := false) rfl fun h => by simp [Full, start] at h))
      (.unlockPush (i := true) rfl)) (.callPop (i := false) rfl)
  have hpopped : (lts Bool Nat ⟨true, 1, Nat.le_refl 1⟩).Reachable _ :=
    .step (.step (.step hpushed (.lockPop (i := false) (w := false) rfl rfl))
      (.pop (i := false) (t := 7) (w := false) rfl rfl)) (.unlockPop (i := false) (t := 7) rfl)
  have hreach : (lts Bool Nat ⟨true, 1, Nat.le_refl 1⟩).Reachable _ :=
    .step (.step (.step (.step hpopped
      (.notifyNoData (i := true) rfl (by rintro (_ | _) <;> nofun)))
      (.callPush (i := true) 8 rfl)) (.lockPush (i := true) (t := 8) (w := false) rfl rfl))
      (.push (i := true) (t := 8) (w := false) rfl fun h => by simp [Full, start] at h)
  have hfifo := popped_append_q ⟨true, 1, Nat.le_refl 1⟩ hreach
  exact ⟨_, hreach, rfl, rfl, hfifo.1, hfifo.2 rfl⟩

end SafeQueue

end Nanonet
