import Mathlib.Algebra.Order.BigOperators.Group.Finset
import Mathlib.Algebra.Order.Group.Multiset
import Mathlib.Data.Fintype.BigOperators
import Mathlib.Tactic.Abel
import Mathlib.Tactic.DeriveFintype
import Nanonet.Queue.Blocking

/-!
# Producers, workers and a consumer

`test_safe_queue` of `dispatch-test.cpp`: the producers push the same numbers to one queue, the
workers pass them on to a second one, and the consumer counts them. When it has seen as many as
there are, the main thread waits for the producers, sends every worker a `-1` and waits for the
workers.

Here the queues are channels. No number is lost or duplicated (`conserved`), so the consumer counts
each as often as there are producers (`mainOk`).
-/

namespace Nanonet

/-- The arguments of `test_safe_queue`; a capacity that the queues were constructed with. -/
structure QueueTest where
  nProducers : ℕ
  nWorkers : ℕ
  nNumbers : ℕ
  queueSize : QueueConfig

namespace QueueTest

inductive Thread (T : QueueTest) where
  | producer (i : Fin T.nProducers)
  | worker (i : Fin T.nWorkers)
  | main
  deriving DecidableEq, Fintype

inductive Queue where
  | producerWorker
  | workerConsumer
  deriving DecidableEq

instance : Fintype Queue := ⟨{.producerWorker, .workerConsumer}, fun x => by cases x <;> simp⟩

/-- Where a thread is: in `producer`, before it pushes `i`; in `worker`, before it pops and before
it pushes `i`; and where the main thread is in `consumer` and after it. -/
inductive Place (T : QueueTest) where
  | producing (i : ℕ)
  | producerReturned
  | popping
  | pushing (i : ℤ)
  | workerReturned
  | consuming (count : ℕ) (numbers : List ℕ)
  | joiningProducers (t : T.Thread) (ts : List T.Thread)
  | layingOff (left : ℕ)
  | joiningWorkers (t : T.Thread) (ts : List T.Thread)
  | ok
  | failed

variable (T : QueueTest)

/-! ### The functions of the test -/

def produce (i : ℕ) : T.Place := if i < T.nNumbers then .producing i else .producerReturned

/-- `worker` with the number that it popped. -/
def work (i : ℤ) : T.Place := if 0 ≤ i then .pushing i else .workerReturned

/-- The last loop of `test_safe_queue`. -/
def joinWorkers : List T.Thread → T.Place
  | [] => .ok
  | t :: ts => .joiningWorkers t ts

def layOff : ℕ → T.Place
  | 0 => T.joinWorkers ((List.finRange T.nWorkers).map .worker)
  | left + 1 => .layingOff left

/-- The loop after `consumer` returned. -/
def joinProducers : List T.Thread → T.Place
  | [] => T.layOff T.nWorkers
  | t :: ts => .joiningProducers t ts

/-- The loops of `consumer`; it throws if it counted wrongly. -/
def consume (count : ℕ) (numbers : List ℕ) : T.Place :=
  if count < T.nProducers * T.nNumbers then .consuming count numbers
  else if numbers.all (· = T.nProducers) then
    T.joinProducers ((List.finRange T.nProducers).map .producer)
  else .failed

/-- `++numbers.at(i)`; it throws if there is no such number. -/
def countNumber (count : ℕ) (numbers : List ℕ) (i : ℤ) : T.Place :=
  if 0 ≤ i ∧ i < numbers.length then T.consume (count + 1) (numbers.modify i.toNat (· + 1))
  else .failed

def program : Threads.Program T.Thread Queue ℤ T.Place where
  request
    | .producing i => some (.call .producerWorker (.push i))
    | .popping => some (.call .producerWorker .pop)
    | .pushing i => some (.call .workerConsumer (.push i))
    | .consuming _ _ => some (.call .workerConsumer .pop)
    | .joiningProducers t _ => some (.join t)
    | .layingOff _ => some (.call .producerWorker (.push (-1)))
    | .joiningWorkers t _ => some (.join t)
    | .producerReturned | .workerReturned | .ok | .failed => none
  resume
    | .producing i, _ => T.produce (i + 1)
    | .popping, some i => T.work i
    | .pushing _, _ => .popping
    | .consuming count numbers, some i => T.countNumber count numbers i
    | .joiningProducers _ ts, _ => T.joinProducers ts
    | .layingOff left, _ => T.layOff left
    | .joiningWorkers _ ts, _ => T.joinWorkers ts
    | place, _ => place

/-- The threads when all of them were started. -/
def begins : T.Thread → T.Place
  | .producer _ => T.produce 0
  | .worker _ => .popping
  | .main => T.consume 0 (List.replicate T.nNumbers 0)

/-- `test_safe_queue` with the queues as channels. -/
def channels : Lts (Threads T.Thread Queue ℤ T.Place) T.Thread :=
  Threads.lts T.program (fun _ => T.queueSize.limit) T.begins

def lts : Lts (Clients T.Thread Queue ℤ T.Place) (T.Thread × StepKind) :=
  Clients.lts T.program (fun _ => T.queueSize) T.begins

/-! ### What each thread does -/

variable {T} {t t' : Threads T.Thread Queue ℤ T.Place} {i : T.Thread}

/-- Where each thread may be, and with which numbers. -/
def Role : T.Thread → T.Place → Prop
  | .producer _, .producing i => i < T.nNumbers
  | .producer _, .producerReturned => True
  | .worker _, .popping => True
  | .worker _, .pushing i => 0 ≤ i
  | .worker _, .workerReturned => True
  | .main, .consuming _ _ | .main, .joiningProducers _ _ | .main, .layingOff _ => True
  | .main, .joiningWorkers _ _ | .main, .ok | .main, .failed => True
  | _, _ => False

theorem Role.producer {p : Fin T.nProducers} {place : T.Place} (h : Role (.producer p) place) :
    (∃ i < T.nNumbers, place = .producing i) ∨ place = .producerReturned := by
  cases place with
  | producing i => exact .inl ⟨i, h, rfl⟩
  | producerReturned => exact .inr rfl
  | _ => exact h.elim

theorem Role.worker {w : Fin T.nWorkers} {place : T.Place} (h : Role (.worker w) place) :
    place = .popping ∨ (∃ a, place = .pushing a) ∨ place = .workerReturned := by
  cases place with
  | popping => exact .inl rfl
  | pushing a => exact .inr (.inl ⟨a, rfl⟩)
  | workerReturned => exact .inr (.inr rfl)
  | _ => exact h.elim

/-- One step of one thread. -/
inductive Move (T : QueueTest) (t : Threads T.Thread Queue ℤ T.Place) :
    T.Thread → T.Place → (Queue → Channel ℤ) → Prop where
  | produce {p : Fin T.nProducers} {i : ℕ} (hpc : t.pc (.producer p) = .producing i)
      (hlt : i < T.nNumbers) :
      Move T t (.producer p) (T.produce (i + 1)) (Function.update t.channel .producerWorker
        ((t.channel .producerWorker).push i))
  | take {w : Fin T.nWorkers} {i : ℤ} {ch : Channel ℤ} (hpc : t.pc (.worker w) = .popping)
      (hpop : (t.channel .producerWorker).pop = some (i, ch)) :
      Move T t (.worker w) (T.work i) (Function.update t.channel .producerWorker ch)
  | pass {w : Fin T.nWorkers} {i : ℤ} (hpc : t.pc (.worker w) = .pushing i) (hnonneg : 0 ≤ i) :
      Move T t (.worker w) .popping (Function.update t.channel .workerConsumer
        ((t.channel .workerConsumer).push i))
  | consume {count : ℕ} {numbers : List ℕ} {i : ℤ} {ch : Channel ℤ}
      (hpc : t.pc .main = .consuming count numbers)
      (hpop : (t.channel .workerConsumer).pop = some (i, ch)) :
      Move T t .main (T.countNumber count numbers i) (Function.update t.channel .workerConsumer ch)
  | joinProducer {j : T.Thread} {ts : List T.Thread} (hpc : t.pc .main = .joiningProducers j ts) :
      Move T t .main (T.joinProducers ts) t.channel
  | layOff {left : ℕ} (hpc : t.pc .main = .layingOff left) :
      Move T t .main (T.layOff left) (Function.update t.channel .producerWorker
        ((t.channel .producerWorker).push (-1)))
  | joinWorker {j : T.Thread} {ts : List T.Thread} (hpc : t.pc .main = .joiningWorkers j ts)
      (hreturned : T.program.request (t.pc j) = none) :
      Move T t .main (T.joinWorkers ts) t.channel

theorem move_of_step (hrole : ∀ i, Role i (t.pc i))
    (h : Threads.Step T.program (fun _ => T.queueSize.limit) t i t') :
    ∃ place channel, Move T t i place channel ∧ t' = ⟨channel, Function.update t.pc i place⟩ := by
  have hi := hrole i
  cases h with
  | push hreq hroom =>
    cases hpc : t.pc i <;> rw [hpc] at hreq hi <;> cases hreq
    · cases i <;> try exact hi.elim
      exact ⟨_, _, .produce hpc hi, rfl⟩
    · cases i <;> try exact hi.elim
      exact ⟨_, _, .pass hpc hi, rfl⟩
    · cases i <;> try exact hi.elim
      exact ⟨_, _, .layOff hpc, rfl⟩
  | pop hreq hpop =>
    cases hpc : t.pc i <;> rw [hpc] at hreq hi <;> cases hreq
    · cases i <;> try exact hi.elim
      exact ⟨_, _, .take hpc hpop, rfl⟩
    · cases i <;> try exact hi.elim
      exact ⟨_, _, .consume hpc hpop, rfl⟩
  | join hreq hreturned =>
    cases hpc : t.pc i <;> rw [hpc] at hreq hi <;> cases hreq
    · cases i <;> try exact hi.elim
      exact ⟨_, _, .joinProducer hpc, rfl⟩
    · cases i <;> try exact hi.elim
      exact ⟨_, _, .joinWorker hpc hreturned, rfl⟩

theorem role_produce (p : Fin T.nProducers) (i : ℕ) : Role (.producer p) (T.produce i) := by
  unfold produce
  split_ifs with h
  · exact h
  · trivial

theorem role_work (w : Fin T.nWorkers) (i : ℤ) : Role (.worker w) (T.work i) := by
  unfold work
  split_ifs with h
  · exact h
  · trivial

theorem role_joinWorkers (ts : List T.Thread) : Role .main (T.joinWorkers ts) := by
  cases ts <;> trivial

theorem role_layOff (left : ℕ) : Role .main (T.layOff left) := by
  cases left
  · exact role_joinWorkers _
  · trivial

theorem role_joinProducers (ts : List T.Thread) : Role .main (T.joinProducers ts) := by
  cases ts
  · exact role_layOff _
  · trivial

theorem role_consume (count : ℕ) (numbers : List ℕ) : Role .main (T.consume count numbers) := by
  unfold consume
  split_ifs
  · trivial
  · exact role_joinProducers _
  · trivial

theorem role_countNumber (count : ℕ) (numbers : List ℕ) (i : ℤ) :
    Role .main (T.countNumber count numbers i) := by
  unfold countNumber
  split_ifs
  · exact role_consume _ _
  · trivial

theorem Move.role {place : T.Place} {channel : Queue → Channel ℤ} (h : Move T t i place channel) :
    Role i place := by
  cases h with
  | produce _ _ => exact role_produce _ _
  | take _ _ => exact role_work _ _
  | pass _ _ => trivial
  | consume _ _ => exact role_countNumber _ _ _
  | joinProducer _ => exact role_joinProducers _
  | layOff _ => exact role_layOff _
  | joinWorker _ _ => exact role_joinWorkers _

theorem roles (h : T.channels.Reachable t) : ∀ i, Role i (t.pc i) := by
  refine h.invariant (P := fun t => ∀ i, Role i (t.pc i)) ?_ ?_
  · rintro t rfl (p | w | _)
    · exact role_produce p 0
    · trivial
    · exact role_consume _ _
  · intro t i t' _ hrole hstep j
    obtain ⟨place, channel, hmove, rfl⟩ := move_of_step hrole hstep
    by_cases hji : j = i
    · subst hji
      simp only [Function.update_self]
      exact hmove.role
    · simp only [Function.update_of_ne hji]
      exact hrole j

theorem invariant {P : Threads T.Thread Queue ℤ T.Place → Prop} (hstart : P (.start T.begins))
    (hmove : ∀ t i place channel, T.channels.Reachable t →
      T.channels.Reachable ⟨channel, Function.update t.pc i place⟩ → P t →
      Move T t i place channel → P ⟨channel, Function.update t.pc i place⟩)
    (h : T.channels.Reachable t) : P t := by
  refine h.invariant ?_ ?_
  · rintro t rfl
    exact hstart
  · intro t i t' hreach ht hstep
    obtain ⟨place, channel, hmoved, rfl⟩ := move_of_step (roles hreach) hstep
    exact hmove t i place channel hreach (.step hreach hstep) ht hmoved

/-! ### Totals -/

def threadEquiv (T : QueueTest) : T.Thread ≃ (Fin T.nProducers ⊕ Fin T.nWorkers) ⊕ Unit where
  toFun
    | .producer p => .inl (.inl p)
    | .worker w => .inl (.inr w)
    | .main => .inr ()
  invFun
    | .inl (.inl p) => .producer p
    | .inl (.inr w) => .worker w
    | .inr _ => .main
  left_inv i := by cases i <;> rfl
  right_inv i := by rcases i with (i | i) | i <;> rfl

theorem sum_threads {M : Type*} [AddCommMonoid M] (f : T.Thread → M) :
    ∑ i, f i = ∑ p, f (.producer p) + ∑ w, f (.worker w) + f .main := by
  rw [← (threadEquiv T).symm.sum_comp, Fintype.sum_sum_type, Fintype.sum_sum_type]
  congr 1
  exact Fintype.sum_unique _

/-- What each move only carries from its thread to the queues, or back, stays the same. -/
theorem total_eq {M : Type*} [AddCancelCommMonoid M] (w : T.Place → M)
    (r : (Queue → Channel ℤ) → M)
    (hmove : ∀ {t i place channel}, Move T t i place channel →
      w place + r channel = w (t.pc i) + r t.channel) (h : T.channels.Reachable t) :
    ∑ i, w (t.pc i) + r t.channel = ∑ i, w (T.begins i) + r fun _ => ⟨[], [], []⟩ := by
  refine invariant (P := fun t => ∑ i, w (t.pc i) + r t.channel = _) rfl ?_ h
  intro t i place channel _ _ ht hmoved
  have hsum := sum_update w t.pc i place
  apply add_right_cancel (b := w (t.pc i))
  rw [← ht]
  calc ∑ j, w (Function.update t.pc i place j) + r channel + w (t.pc i)
      = ∑ j, w (t.pc j) + (w place + r channel) := by rw [add_right_comm, hsum, add_assoc]
    _ = ∑ j, w (t.pc j) + r t.channel + w (t.pc i) := by rw [hmove hmoved]; abel

/-! ### Nothing is lost or duplicated -/

/-- The numbers from `i` on, below `N_NUMBERS`. -/
def numbersFrom (T : QueueTest) (i : ℕ) : Multiset ℤ :=
  ((List.range' i (T.nNumbers - i)).map Nat.cast : List ℤ)

/-- The numbers that a thread still has to push. -/
def load : T.Place → Multiset ℤ
  | .producing i => T.numbersFrom i
  | .pushing i => {i}
  | _ => 0

/-- The numbers that were pushed and not popped, or counted. -/
def inQueues (channel : Queue → Channel ℤ) : Multiset ℤ :=
  ((channel .producerWorker).content.filter (0 ≤ ·) : List ℤ) +
    ((channel .workerConsumer).content : Multiset ℤ) +
    ((channel .workerConsumer).popped : Multiset ℤ)

theorem numbersFrom_of_lt {i : ℕ} (h : i < T.nNumbers) :
    T.numbersFrom i = (i : ℤ) ::ₘ T.numbersFrom (i + 1) := by
  have hsucc : T.nNumbers - i = T.nNumbers - (i + 1) + 1 := by omega
  rw [numbersFrom, hsucc, List.range'_succ, List.map_cons, ← Multiset.cons_coe]
  rfl

theorem load_produce (i : ℕ) : load (T.produce i) = T.numbersFrom i := by
  unfold produce
  split_ifs with h
  · rfl
  · rw [numbersFrom, Nat.sub_eq_zero_of_le (not_lt.1 h)]
    rfl

theorem load_main {place : T.Place} (h : Role .main place) : load place = 0 := by
  cases place <;> first | rfl | exact h.elim

theorem inQueues_first (channel : Queue → Channel ℤ) (ch : Channel ℤ) :
    inQueues (Function.update channel .producerWorker ch) =
      (ch.content.filter (0 ≤ ·) : List ℤ) + ((channel .workerConsumer).content : Multiset ℤ) +
        ((channel .workerConsumer).popped : Multiset ℤ) := rfl

theorem inQueues_second (channel : Queue → Channel ℤ) (ch : Channel ℤ) :
    inQueues (Function.update channel .workerConsumer ch) =
      ((channel .producerWorker).content.filter (0 ≤ ·) : List ℤ) + (ch.content : Multiset ℤ) +
        (ch.popped : Multiset ℤ) := rfl

theorem Move.load_eq {place : T.Place} {channel : Queue → Channel ℤ}
    (h : Move T t i place channel) :
    load place + inQueues channel = load (t.pc i) + inQueues t.channel := by
  cases h with
  | @produce p i hpc hlt =>
    have hnonneg : (0 : ℤ) ≤ i := Int.natCast_nonneg i
    have hfilter : ((t.channel .producerWorker).push (i : ℤ)).content.filter (0 ≤ ·) =
        (t.channel .producerWorker).content.filter (0 ≤ ·) ++ [(i : ℤ)] := by
      simp [Channel.push, hnonneg]
    rw [hpc, load_produce, load, numbersFrom_of_lt hlt, inQueues_first, hfilter,
      ← Multiset.coe_add, Multiset.coe_singleton, ← Multiset.singleton_add, inQueues]
    abel
  | @take w a ch hpc hpop =>
    obtain ⟨content, hcontent, rfl⟩ := Channel.pop_eq_some hpop
    have hpopping : load (.popping : T.Place) = 0 := rfl
    rw [hpc, inQueues_first, inQueues, hcontent, work, hpopping]
    split_ifs with hnonneg
    · rw [List.filter_cons_of_pos (by simpa using hnonneg), ← Multiset.cons_coe,
        ← Multiset.singleton_add, load]
      abel
    · rw [List.filter_cons_of_neg (by simpa using hnonneg)]
      rfl
  | @pass w a hpc hnonneg =>
    rw [hpc, inQueues_second, inQueues]
    simp only [Channel.push, load, ← Multiset.coe_add, Multiset.coe_singleton]
    abel
  | @consume count numbers a ch hpc hpop =>
    obtain ⟨content, hcontent, rfl⟩ := Channel.pop_eq_some hpop
    have hconsuming : load (.consuming count numbers : T.Place) = 0 := rfl
    rw [hpc, inQueues_second, inQueues, hcontent, load_main (role_countNumber _ _ _), hconsuming,
      ← Multiset.coe_add, Multiset.coe_singleton, ← Multiset.cons_coe, ← Multiset.singleton_add]
    abel
  | joinProducer hpc =>
    rw [hpc, load_main (role_joinProducers _)]
    rfl
  | layOff hpc =>
    have hfilter : ((t.channel .producerWorker).push (-1)).content.filter (0 ≤ ·) =
        (t.channel .producerWorker).content.filter (0 ≤ ·) := by
      simp [Channel.push]
    rw [hpc, load_main (role_layOff _), inQueues_first, hfilter]
    rfl
  | joinWorker hpc _ =>
    rw [hpc, load_main (role_joinWorkers _)]
    rfl

/-- `0`, …, `N_NUMBERS - 1`, once for each producer. -/
def allNumbers (T : QueueTest) : Multiset ℤ := T.nProducers • T.numbersFrom 0

/-- Every number is still to be pushed, in one of the queues, with a worker, or counted. -/
theorem conserved (h : T.channels.Reachable t) :
    ∑ i, load (t.pc i) + inQueues t.channel = T.allNumbers := by
  rw [total_eq load inQueues Move.load_eq h, sum_threads]
  have hproducers : ∑ p : Fin T.nProducers, load (T.begins (.producer p)) = T.allNumbers := by
    simp only [begins, load_produce, Finset.sum_const, Finset.card_univ, Fintype.card_fin]
    rfl
  have hworkers : ∑ w : Fin T.nWorkers, load (T.begins (.worker w)) = 0 :=
    Finset.sum_eq_zero fun _ _ => rfl
  rw [hproducers, hworkers, begins, load_main (role_consume _ _)]
  simp [inQueues]

theorem card_allNumbers : T.allNumbers.card = T.nProducers * T.nNumbers := by
  simp [allNumbers, numbersFrom]

theorem mem_allNumbers {a : ℤ} (h : a ∈ T.allNumbers) : 0 ≤ a ∧ a < T.nNumbers := by
  have hmem := Multiset.mem_of_mem_nsmul h
  simp only [numbersFrom, Multiset.mem_coe, List.mem_map, List.mem_range'_1] at hmem
  obtain ⟨k, hk, rfl⟩ := hmem
  omega

theorem count_allNumbers {k : ℕ} (h : k < T.nNumbers) :
    T.allNumbers.count (k : ℤ) = T.nProducers := by
  have hnodup : ((List.range' 0 T.nNumbers).map (Nat.cast : ℕ → ℤ)).Nodup :=
    List.Nodup.map Nat.cast_injective (List.nodup_range' ..)
  have hmem : (k : ℤ) ∈ (List.range' 0 T.nNumbers).map (Nat.cast : ℕ → ℤ) :=
    List.mem_map_of_mem (by simp [h])
  rw [allNumbers, Multiset.count_nsmul, numbersFrom, Nat.sub_zero, Multiset.coe_count,
    List.count_eq_one_of_mem hnodup hmem, mul_one]

theorem popped_le (h : T.channels.Reachable t) :
    ((t.channel .workerConsumer).popped : Multiset ℤ) ≤ T.allNumbers := by
  rw [← conserved h, inQueues, ← add_assoc]
  exact Multiset.le_add_left _ _

theorem content_le (h : T.channels.Reachable t) :
    ((t.channel .workerConsumer).content : Multiset ℤ) ≤ T.allNumbers := by
  rw [← conserved h, inQueues, ← add_assoc, ← add_assoc]
  exact (Multiset.le_add_left _ _).trans (Multiset.le_add_right _ _)

def Complete (T : QueueTest) (popped : List ℤ) : Prop :=
  T.nProducers * T.nNumbers ≤ popped.length

theorem Complete.popped_eq {popped : List ℤ} (hcomplete : T.Complete popped)
    (hle : (popped : Multiset ℤ) ≤ T.allNumbers) : (popped : Multiset ℤ) = T.allNumbers := by
  apply Multiset.eq_of_le_of_card_le hle
  rw [card_allNumbers]
  exact hcomplete

theorem Complete.rest (hcomplete : T.Complete (t.channel .workerConsumer).popped)
    (h : T.channels.Reachable t) : (∀ i, load (t.pc i) = 0) ∧
      (∀ a ∈ (t.channel .producerWorker).content, a < 0) ∧
      (t.channel .workerConsumer).content = [] := by
  have htotal := conserved h
  rw [inQueues, hcomplete.popped_eq (popped_le h), ← add_assoc] at htotal
  have hzero := add_eq_right.1 htotal
  simp only [add_eq_zero, Multiset.coe_eq_zero, List.filter_eq_nil_iff, Finset.sum_eq_zero_iff,
    Finset.mem_univ, true_implies] at hzero
  obtain ⟨hload, hfirst, hsecond⟩ := hzero
  exact ⟨hload, fun a ha => by simpa using hfirst a ha, hsecond⟩

/-! ### The main thread -/

def tally (T : QueueTest) (popped : List ℤ) : List ℕ :=
  (List.range T.nNumbers).map fun k : ℕ => popped.count (k : ℤ)

/-- The consumer has counted what it popped, and has more to pop; after it, all numbers were
counted, and the threads that were waited for have returned. -/
def MainInv (T : QueueTest) (popped : List ℤ) (workers : Fin T.nWorkers → T.Place) :
    T.Place → Prop
  | .consuming count numbers =>
    count < T.nProducers * T.nNumbers ∧ count = popped.length ∧ numbers = T.tally popped
  | .joiningProducers j ts => T.Complete popped ∧ ∀ x ∈ j :: ts, ∃ p, x = .producer p
  | .layingOff left => T.Complete popped ∧ left < T.nWorkers
  | .joiningWorkers j ts => T.Complete popped ∧ (∀ x ∈ j :: ts, ∃ w, x = .worker w) ∧
      ∀ w, .worker w ∉ j :: ts → workers w = .workerReturned
  | .ok => T.Complete popped ∧ ∀ w, workers w = .workerReturned
  | _ => False

variable {popped : List ℤ} {workers workers' : Fin T.nWorkers → T.Place} {place : T.Place}

theorem MainInv.mono (h : MainInv T popped workers place)
    (hworkers : ∀ w, workers w = .workerReturned → workers' w = .workerReturned) :
    MainInv T popped workers' place := by
  cases place with
  | joiningWorkers j ts => exact ⟨h.1, h.2.1, fun w hw => hworkers w (h.2.2 w hw)⟩
  | ok => exact ⟨h.1, fun w => hworkers w (h.2 w)⟩
  | _ => exact h

theorem mainInv_joinWorkers (hcomplete : T.Complete popped) {ts : List T.Thread}
    (hts : ∀ x ∈ ts, ∃ w, x = .worker w)
    (hreturned : ∀ w, .worker w ∉ ts → workers w = .workerReturned) :
    MainInv T popped workers (T.joinWorkers ts) := by
  cases ts with
  | nil => exact ⟨hcomplete, fun w => hreturned w (List.not_mem_nil)⟩
  | cons j ts => exact ⟨hcomplete, hts, hreturned⟩

theorem mainInv_layOff (hcomplete : T.Complete popped) {left : ℕ} (hleft : left ≤ T.nWorkers) :
    MainInv T popped workers (T.layOff left) := by
  cases left with
  | zero =>
    apply mainInv_joinWorkers hcomplete
    · intro x hx
      obtain ⟨w, -, rfl⟩ := List.mem_map.1 hx
      exact ⟨w, rfl⟩
    · intro w hw
      exact absurd (List.mem_map_of_mem (List.mem_finRange w)) hw
  | succ left => exact ⟨hcomplete, hleft⟩

theorem mainInv_joinProducers (hcomplete : T.Complete popped) {ts : List T.Thread}
    (hts : ∀ x ∈ ts, ∃ p, x = .producer p) : MainInv T popped workers (T.joinProducers ts) := by
  cases ts with
  | nil => exact mainInv_layOff hcomplete le_rfl
  | cons j ts => exact ⟨hcomplete, hts⟩

theorem mainInv_consume (hle : (popped : Multiset ℤ) ≤ T.allNumbers) :
    MainInv T popped workers (T.consume popped.length (T.tally popped)) := by
  unfold consume
  split_ifs with hlt hall
  · exact ⟨hlt, rfl, rfl⟩
  · apply mainInv_joinProducers (not_lt.1 hlt)
    intro x hx
    obtain ⟨p, -, rfl⟩ := List.mem_map.1 hx
    exact ⟨p, rfl⟩
  · -- a number was counted too often or too rarely, though none is missing
    have hcomplete : T.Complete popped := not_lt.1 hlt
    apply hall
    rw [List.all_eq_true]
    intro n hn
    obtain ⟨k, hk, rfl⟩ := List.mem_map.1 hn
    rw [decide_eq_true_iff, ← Multiset.coe_count, hcomplete.popped_eq hle]
    exact count_allNumbers (List.mem_range.1 hk)

theorem tally_concat (k : ℕ) :
    T.tally (popped ++ [(k : ℤ)]) = (T.tally popped).modify k (· + 1) := by
  apply List.ext_getElem
  · simp [tally]
  · intro n hn hn'
    simp only [tally, List.getElem_map, List.getElem_range, List.getElem_modify,
      List.count_append, List.count_singleton, beq_iff_eq, Nat.cast_inj]
    split_ifs <;> simp_all

/-- The invariant of the main thread, for the state of all threads. -/
def MainOk (t : Threads T.Thread Queue ℤ T.Place) : Prop :=
  MainInv T (t.channel .workerConsumer).popped (fun w => t.pc (.worker w)) (t.pc .main)

theorem returned_of_update {w : Fin T.nWorkers} (hw : t.pc (.worker w) ≠ .workerReturned)
    (place : T.Place) (v : Fin T.nWorkers) (hv : t.pc (.worker v) = .workerReturned) :
    Function.update t.pc (.worker w) place (.worker v) = .workerReturned := by
  rw [Function.update_of_ne]
  · exact hv
  · intro heq
    rw [heq] at hv
    exact hw hv

theorem mainOk_consume (hreach : T.channels.Reachable t) (hok : MainOk t) {count : ℕ}
    {numbers : List ℕ} {a : ℤ} {content : List ℤ} (hpc : t.pc .main = .consuming count numbers)
    (hcontent : (t.channel .workerConsumer).content = a :: content)
    (hle : (((t.channel .workerConsumer).popped ++ [a] : List ℤ) : Multiset ℤ) ≤ T.allNumbers) :
    MainInv T ((t.channel .workerConsumer).popped ++ [a]) workers
      (T.countNumber count numbers a) := by
  rw [MainOk, hpc] at hok
  obtain ⟨-, rfl, rfl⟩ := hok
  have hmem : a ∈ T.allNumbers := by
    apply Multiset.mem_of_le (content_le hreach)
    rw [hcontent]
    exact List.mem_cons_self
  obtain ⟨hnonneg, hlt⟩ := mem_allNumbers hmem
  obtain ⟨k, rfl⟩ := Int.eq_ofNat_of_zero_le hnonneg
  have hlength : (T.tally (t.channel .workerConsumer).popped).length = T.nNumbers := by
    simp [tally]
  have hpopped : (t.channel .workerConsumer).popped.length + 1 =
      ((t.channel .workerConsumer).popped ++ [(k : ℤ)]).length := by simp
  rw [countNumber, hlength, if_pos ⟨hnonneg, hlt⟩, Int.toNat_natCast, ← tally_concat, hpopped]
  exact mainInv_consume hle

theorem mainOk (h : T.channels.Reachable t) : MainOk t := by
  refine invariant (P := MainOk) ?_ ?_ h
  · have htally : List.replicate T.nNumbers 0 = T.tally [] := by simp [tally]
    show MainInv T [] _ (T.consume 0 (List.replicate T.nNumbers 0))
    rw [htally]
    exact mainInv_consume (Multiset.zero_le _)
  · intro t i place channel hreach hreach' hok hmove
    cases hmove with
    | produce hpc hlt => exact hok
    | @take w a ch hpc _ =>
      exact MainInv.mono hok (returned_of_update (by simp [hpc]) _)
    | @pass w a hpc _ =>
      exact MainInv.mono hok (returned_of_update (by simp [hpc]) _)
    | consume hpc hpop =>
      obtain ⟨content, hcontent, rfl⟩ := Channel.pop_eq_some hpop
      exact mainOk_consume hreach hok hpc hcontent (popped_le hreach')
    | joinProducer hpc =>
      rw [MainOk, hpc] at hok
      exact mainInv_joinProducers hok.1 fun x hx => hok.2 x (List.mem_cons_of_mem _ hx)
    | layOff hpc =>
      rw [MainOk, hpc] at hok
      exact mainInv_layOff hok.1 hok.2.le
    | @joinWorker j ts hpc hreturned =>
      rw [MainOk, hpc] at hok
      obtain ⟨hcomplete, hts, hothers⟩ := hok
      apply mainInv_joinWorkers hcomplete fun x hx => hts x (List.mem_cons_of_mem _ hx)
      intro w hw
      show t.pc (.worker w) = _
      by_cases hj : .worker w = j
      · have hrole := roles hreach (.worker w)
        rw [← hj] at hreturned
        rcases hrole.worker with hpc | ⟨a, hpc⟩ | hpc
        · rw [hpc] at hreturned
          cases hreturned
        · rw [hpc] at hreturned
          cases hreturned
        · exact hpc
      · exact hothers w (by simp [hj, hw])

end QueueTest

end Nanonet
