import Nanonet.Queue.QueueTestEnds
import Nanonet.Queue.Realized

/-!
# The order of the numbers

With at most one worker the consumer of `test_safe_queue` pops the numbers in the order in which
they were pushed: what it popped was pushed by the worker, which carries at most one number on. With
at most one producer this is the order `0`, `1`, … of its loop (`popped_in_order`). A second worker
can overtake the first, and then the order is lost (`in_order_iff`).
-/

namespace Nanonet

namespace QueueTest

variable {T : QueueTest} {t : Threads T.Thread Queue ℤ T.Place} {i : T.Thread} {place : T.Place}
  {channel : Queue → Channel ℤ}

/-! ### One worker -/

/-- The number that a worker popped and did not push. -/
def carried : T.Place → List ℤ
  | .pushing a => [a]
  | _ => []

/-- What the worker pushed and carries is what it popped. -/
def PassedOn (t : Threads T.Thread Queue ℤ T.Place) (w : Fin T.nWorkers) : Prop :=
  (t.channel .workerConsumer).pushed ++ carried (t.pc (.worker w)) =
    (t.channel .producerWorker).popped.filter (0 ≤ ·)

theorem Move.passedOn (hone : T.nWorkers ≤ 1) (h : Move T t i place channel)
    {w : Fin T.nWorkers} (hw : PassedOn t w) :
    PassedOn ⟨channel, Function.update t.pc i place⟩ w := by
  have hsame (v : Fin T.nWorkers) : v = w := by omega
  unfold PassedOn at hw ⊢
  cases h with
  | @take v a ch hpc hpop =>
    obtain rfl := hsame v
    obtain ⟨content, -, rfl⟩ := Channel.pop_eq_some hpop
    have hcarried : carried (t.pc (.worker v)) = [] := by
      rw [hpc]
      rfl
    rw [hcarried, List.append_nil] at hw
    show (t.channel .workerConsumer).pushed ++ carried (Function.update t.pc _ _ (.worker v)) =
      ((t.channel .producerWorker).popped ++ [a]).filter (0 ≤ ·)
    rw [Function.update_self, List.filter_append, ← hw, work]
    split_ifs with hnonneg
    · simp [carried, hnonneg]
    · simp [carried, hnonneg]
  | @pass v a hpc hnonneg =>
    obtain rfl := hsame v
    rw [hpc] at hw
    show (t.channel .workerConsumer).pushed ++ [a] ++
      carried (Function.update t.pc _ _ (.worker v)) = _
    rw [Function.update_self]
    show _ ++ [] = _
    rw [List.append_nil]
    exact hw
  | consume hpc hpop =>
    obtain ⟨content, -, rfl⟩ := Channel.pop_eq_some hpop
    simp only [Function.update_of_ne (show Thread.worker w ≠ Thread.main by simp)]
    exact hw
  | produce _ _ =>
    simp only [Function.update_of_ne (show Thread.worker w ≠ Thread.producer _ by simp)]
    exact hw
  | joinProducer _ | layOff _ | joinWorker _ _ =>
    simp only [Function.update_of_ne (show Thread.worker w ≠ Thread.main by simp)]
    exact hw

theorem passedOn (hone : T.nWorkers ≤ 1) (h : T.channels.Reachable t) (w : Fin T.nWorkers) :
    PassedOn t w := by
  refine invariant (P := fun t => PassedOn t w) rfl ?_ h
  intro t i place channel _ _ hw hmove
  exact hmove.passedOn hone hw

/-! ### One producer -/

/-- The numbers that a producer still has to push, in their order. -/
def upcoming : T.Place → List ℤ
  | .producing k => (List.range' k (T.nNumbers - k)).map Nat.cast
  | _ => []

/-- What the producer pushed, and what it will push, are the numbers in their order. -/
def InTurn (t : Threads T.Thread Queue ℤ T.Place) (p : Fin T.nProducers) : Prop :=
  (t.channel .producerWorker).pushed.filter (0 ≤ ·) ++ upcoming (t.pc (.producer p)) =
    (List.range T.nNumbers).map Nat.cast

theorem upcoming_produce (k : ℕ) :
    upcoming (T.produce k) = (List.range' k (T.nNumbers - k)).map Nat.cast := by
  unfold produce
  split_ifs with h
  · rfl
  · rw [Nat.sub_eq_zero_of_le (not_lt.1 h)]
    rfl

theorem upcoming_producing {k : ℕ} (h : k < T.nNumbers) :
    upcoming (.producing k : T.Place) = (k : ℤ) :: upcoming (T.produce (k + 1)) := by
  have hsucc : T.nNumbers - k = T.nNumbers - (k + 1) + 1 := by omega
  rw [upcoming_produce, upcoming, hsucc, List.range'_succ, List.map_cons]

theorem Move.inTurn (hone : T.nProducers ≤ 1) (h : Move T t i place channel)
    {p : Fin T.nProducers} (hp : InTurn t p) :
    InTurn ⟨channel, Function.update t.pc i place⟩ p := by
  have hsame (v : Fin T.nProducers) : v = p := by omega
  unfold InTurn at hp ⊢
  cases h with
  | @produce v k hpc hlt =>
    obtain rfl := hsame v
    have hnonneg : (0 : ℤ) ≤ k := Int.natCast_nonneg k
    rw [hpc, upcoming_producing hlt] at hp
    show ((t.channel .producerWorker).pushed ++ [(k : ℤ)]).filter (0 ≤ ·) ++
      upcoming (Function.update t.pc _ _ (.producer v)) = _
    rw [Function.update_self, List.filter_append, ← hp]
    simp [hnonneg]
  | @layOff left hpc =>
    show ((t.channel .producerWorker).pushed ++ [-1]).filter (0 ≤ ·) ++
      upcoming (Function.update t.pc .main (T.layOff left) (.producer p)) = _
    rw [Function.update_of_ne (by simp), List.filter_append, ← hp]
    simp
  | take hpc hpop =>
    obtain ⟨content, -, rfl⟩ := Channel.pop_eq_some hpop
    simp only [Function.update_of_ne (show Thread.producer p ≠ Thread.worker _ by simp)]
    exact hp
  | consume hpc hpop =>
    simp only [Function.update_of_ne (show Thread.producer p ≠ Thread.main by simp)]
    exact hp
  | pass _ _ =>
    simp only [Function.update_of_ne (show Thread.producer p ≠ Thread.worker _ by simp)]
    exact hp
  | joinProducer _ | joinWorker _ _ =>
    simp only [Function.update_of_ne (show Thread.producer p ≠ Thread.main by simp)]
    exact hp

theorem inTurn (hone : T.nProducers ≤ 1) (h : T.channels.Reachable t) (p : Fin T.nProducers) :
    InTurn t p := by
  refine invariant (P := fun t => InTurn t p) ?_ ?_ h
  · show [] ++ upcoming (T.produce 0) = _
    rw [upcoming_produce, List.range_eq_range']
    rfl
  · intro t i place channel _ _ hp hmove
    exact hmove.inTurn hone hp

/-! ### Any number of threads -/

/-- The numbers that were pushed by producers. -/
def pushedNumbers (channel : Queue → Channel ℤ) : Multiset ℤ :=
  ((channel .producerWorker).pushed.filter (0 ≤ ·) : List ℤ)

theorem upcoming_main (h : Role .main place) : upcoming place = [] := by
  cases place <;> first | rfl | exact h.elim

theorem upcoming_worker {w : Fin T.nWorkers} (h : Role (.worker w) place) :
    upcoming place = [] := by
  cases place <;> first | rfl | exact h.elim

theorem Move.role_before (h : Move T t i place channel) : Role i (t.pc i) := by
  cases h with
  | produce hpc hlt =>
    rw [hpc]
    exact hlt
  | pass hpc hnonneg =>
    rw [hpc]
    exact hnonneg
  | take hpc _ | consume hpc _ | joinProducer hpc | layOff hpc | joinWorker hpc _ =>
    rw [hpc]
    trivial

theorem Move.upcoming_eq (h : Move T t i place channel) :
    (upcoming place : Multiset ℤ) + pushedNumbers channel =
      (upcoming (t.pc i) : Multiset ℤ) + pushedNumbers t.channel := by
  have hrole := h.role_before
  have hrole' := h.role
  cases h with
  | @produce p k hpc hlt =>
    have hnonneg : (0 : ℤ) ≤ k := Int.natCast_nonneg k
    have hpushed : pushedNumbers (Function.update t.channel .producerWorker
        ((t.channel .producerWorker).push (k : ℤ))) = pushedNumbers t.channel + {(k : ℤ)} := by
      show (((t.channel .producerWorker).pushed ++ [(k : ℤ)]).filter (0 ≤ ·) : Multiset ℤ) = _
      rw [List.filter_append, ← Multiset.coe_add]
      simp [pushedNumbers, hnonneg]
    rw [hpc, upcoming_producing hlt, hpushed, ← Multiset.cons_coe, ← Multiset.singleton_add]
    abel
  | @take w a ch hpc hpop =>
    obtain ⟨content, -, rfl⟩ := Channel.pop_eq_some hpop
    rw [upcoming_worker hrole, upcoming_worker hrole']
    rfl
  | pass _ _ =>
    rw [upcoming_worker hrole, upcoming_worker hrole']
    rfl
  | layOff hpc =>
    rw [upcoming_main hrole, upcoming_main hrole']
    simp [pushedNumbers, Channel.push]
  | consume _ _ =>
    rw [upcoming_main hrole, upcoming_main hrole']
    rfl
  | joinProducer _ | joinWorker _ _ => rw [upcoming_main hrole, upcoming_main hrole']

theorem upcoming_le_load (place : T.Place) : (upcoming place : Multiset ℤ) ≤ load place := by
  cases place with
  | producing k => exact le_rfl
  | _ => exact Multiset.zero_le _

theorem pushed_total (h : T.channels.Reachable t) :
    ∑ i, (upcoming (t.pc i) : Multiset ℤ) + pushedNumbers t.channel = T.allNumbers := by
  have htotal := total_eq (fun place => (upcoming place : Multiset ℤ)) pushedNumbers
    Move.upcoming_eq h
  have hmain : upcoming (T.begins .main) = [] := upcoming_main (role_consume _ _)
  have hworkers : ∑ w : Fin T.nWorkers, (upcoming (T.begins (.worker w)) : Multiset ℤ) = 0 :=
    Finset.sum_eq_zero fun _ _ => rfl
  have hnone : pushedNumbers (fun _ => (⟨[], [], []⟩ : Channel ℤ)) = 0 := rfl
  rw [htotal, sum_threads, hworkers, hmain, hnone]
  simp only [begins, upcoming_produce, Finset.sum_const, Finset.card_univ, Fintype.card_fin,
    Multiset.coe_nil, add_zero]
  rfl

theorem pushed_le (h : T.channels.Reachable t) : pushedNumbers t.channel ≤ T.allNumbers := by
  rw [← pushed_total h]
  exact Multiset.le_add_left _ _

theorem popped_le_pushed (h : T.channels.Reachable t) :
    ((t.channel .workerConsumer).popped : Multiset ℤ) ≤ pushedNumbers t.channel := by
  have hle : ∑ i, (upcoming (t.pc i) : Multiset ℤ) ≤ ∑ i, load (t.pc i) :=
    Finset.sum_le_sum fun i _ => upcoming_le_load _
  have hin : ((t.channel .workerConsumer).popped : Multiset ℤ) ≤ inQueues t.channel :=
    Multiset.le_add_left _ _
  apply le_of_add_le_add_left (a := ∑ i, (upcoming (t.pc i) : Multiset ℤ))
  rw [pushed_total h, ← conserved h]
  exact add_le_add hle hin

/-! ### The consumer -/

section queues

variable {s : Clients T.Thread Queue ℤ T.Place}

theorem fifo (h : T.lts.Reachable s) (x : Queue) :
    (s.queue x).popped <+: (s.queue x).pushed := by
  have hqueue := Clients.reachable_queue h x
  have hchannel := (SafeQueue.simulates T.queueSize).invariant (fun _ => Channel.fifo) hqueue
  exact ⟨_, hchannel.1⟩

theorem order_of_one_worker (hworkers : T.nWorkers ≤ 1) (h : T.lts.Reachable s) :
    (s.queue .workerConsumer).popped <+: (s.queue .producerWorker).pushed.filter (0 ≤ ·) := by
  have hreach := channels_reachable h
  by_cases hnone : T.nWorkers = 0
  · have hnil : (s.queue .workerConsumer).popped = [] := (nothing_popped hreach hnone).1
    rw [hnil]
    exact List.nil_prefix
  · have hpassed := passedOn hworkers hreach ⟨0, Nat.pos_of_ne_zero hnone⟩
    have hpushed : (s.queue .workerConsumer).pushed <+:
        (s.queue .producerWorker).popped.filter (0 ≤ ·) := ⟨_, hpassed⟩
    exact ((fifo h .workerConsumer).trans hpushed).trans ((fifo h .producerWorker).filter _)

/-- **First in, first out, through the worker.** With at most one worker the consumer pops the
numbers in the order in which they were pushed, and with at most one producer, `0`, `1`, … in this
order. -/
theorem popped_in_order (hworkers : T.nWorkers ≤ 1) (h : T.lts.Reachable s) :
    (s.queue .workerConsumer).popped <+: (s.queue .producerWorker).pushed.filter (0 ≤ ·) ∧
      (T.nProducers ≤ 1 →
        (s.queue .workerConsumer).popped <+: (List.range T.nNumbers).map Nat.cast) := by
  have hreach := channels_reachable h
  have horder := order_of_one_worker hworkers h
  refine ⟨horder, fun hproducers => ?_⟩
  by_cases hnone : T.nProducers = 0
  · have hle := popped_le hreach
    rw [allNumbers, hnone, zero_nsmul, Multiset.le_zero, Multiset.coe_eq_zero] at hle
    have hnil : (s.queue .workerConsumer).popped = [] := hle
    rw [hnil]
    exact List.nil_prefix
  · have hturn := inTurn hproducers hreach ⟨0, Nat.pos_of_ne_zero hnone⟩
    exact horder.trans ⟨_, hturn⟩

theorem popped_in_order_one : ∃ s, one.lts.Reachable s ∧ s.pc .main = .ok ∧
    (s.queue .workerConsumer).popped <+: [0] := by
  obtain ⟨s, hreach, hok⟩ := exists_over (T := one) fun _ => Nat.one_pos
  exact ⟨s, hreach, hok, (popped_in_order (Nat.le_refl 1) hreach).2 (Nat.le_refl 1)⟩

/-! ### Two workers -/

theorem exists_push {x : Queue} {a : ℤ} (h : T.channels.Reachable t)
    (hreq : T.program.request (t.pc i) = some (.call x (.push a)))
    (hnil : (t.channel x).content = []) : ∃ t', T.channels.Reachable t' ∧
      t'.channel = Function.update t.channel x ((t.channel x).push a) ∧
      t'.pc = Function.update t.pc i (T.program.resume (t.pc i) none) :=
  ⟨_, .step h (.push hreq (room_of_nil hnil)), rfl, rfl⟩

theorem exists_pop {x : Queue} {a : ℤ} {content : List ℤ} (h : T.channels.Reachable t)
    (hreq : T.program.request (t.pc i) = some (.call x .pop))
    (hcontent : (t.channel x).content = a :: content) : ∃ t', T.channels.Reachable t' ∧
      t'.channel = Function.update t.channel x
        ⟨(t.channel x).pushed, (t.channel x).popped ++ [a], content⟩ ∧
      t'.pc = Function.update t.pc i (T.program.resume (t.pc i) (some a)) :=
  ⟨_, .step h (.pop hreq (Channel.pop_of_content hcontent)), rfl, rfl⟩

theorem overtaken (hproducers : T.nProducers ≠ 0) (hnumbers : 1 < T.nNumbers)
    (hworkers : 1 < T.nWorkers) : ∃ t, T.channels.Reachable t ∧
      (t.channel .workerConsumer).popped = [1] ∧
        (t.channel .producerWorker).pushed = [0, 1] := by
  let p : T.Thread := .producer ⟨0, Nat.pos_of_ne_zero hproducers⟩
  let w : T.Thread := .worker ⟨0, by omega⟩
  let v : T.Thread := .worker ⟨1, hworkers⟩
  have hpw : p ≠ w := by simp [p, w]
  have hpv : p ≠ v := by simp [p, v]
  have hwv : w ≠ v := by simp [w, v]
  have hstart : T.channels.Reachable (.start T.begins) := .init rfl
  have hp : T.begins p = .producing 0 := if_pos (by omega)
  have hlt : 0 < T.nProducers * T.nNumbers :=
    Nat.mul_pos (Nat.pos_of_ne_zero hproducers) (by omega)
  have hmain : T.begins .main = .consuming 0 (List.replicate T.nNumbers 0) := if_pos hlt
  obtain ⟨t₁, h₁, hch₁, hpc₁⟩ := exists_push (i := p) (x := .producerWorker) (a := 0) hstart
    (by simp [Threads.start, hp, program]) rfl
  have hp₁ : t₁.pc p = .producing 1 := by
    rw [hpc₁, Function.update_self]
    show T.program.resume (T.begins p) none = _
    rw [hp]
    exact if_pos hnumbers
  have hw₁ : t₁.pc w = .popping := by
    rw [hpc₁, Function.update_of_ne hpw.symm]
    rfl
  obtain ⟨t₂, h₂, hch₂, hpc₂⟩ := exists_pop (i := w) (x := .producerWorker) (a := 0) h₁
    (by rw [hw₁]; rfl) (by rw [hch₁]; rfl)
  have hp₂ : t₂.pc p = .producing 1 := by rw [hpc₂, Function.update_of_ne hpw, hp₁]
  obtain ⟨t₃, h₃, hch₃, hpc₃⟩ := exists_push (i := p) (x := .producerWorker) (a := 1) h₂
    (by rw [hp₂]; rfl) (by rw [hch₂]; rfl)
  have hv₃ : t₃.pc v = .popping := by
    rw [hpc₃, Function.update_of_ne hpv.symm, hpc₂, Function.update_of_ne hwv.symm, hpc₁,
      Function.update_of_ne hpv.symm]
    rfl
  obtain ⟨t₄, h₄, hch₄, hpc₄⟩ := exists_pop (i := v) (x := .producerWorker) (a := 1) h₃
    (by rw [hv₃]; rfl) (by rw [hch₃, hch₂]; rfl)
  have hv₄ : t₄.pc v = .pushing 1 := by
    rw [hpc₄, Function.update_self, hv₃]
    rfl
  obtain ⟨t₅, h₅, hch₅, hpc₅⟩ := exists_push (i := v) (x := .workerConsumer) (a := 1) h₄
    (by rw [hv₄]; rfl) (by rw [hch₄, hch₃, hch₂, hch₁]; rfl)
  have hmain₅ : t₅.pc .main = .consuming 0 (List.replicate T.nNumbers 0) := by
    rw [hpc₅, Function.update_of_ne (by simp [v]), hpc₄, Function.update_of_ne (by simp [v]), hpc₃,
      Function.update_of_ne (by simp [p]), hpc₂, Function.update_of_ne (by simp [w]), hpc₁,
      Function.update_of_ne (by simp [p])]
    exact hmain
  obtain ⟨t₆, h₆, hch₆, -⟩ := exists_pop (i := .main) (x := .workerConsumer) (a := 1) h₅
    (by rw [hmain₅]; rfl) (by rw [hch₅, hch₄, hch₃, hch₂, hch₁]; rfl)
  refine ⟨t₆, h₆, ?_, ?_⟩
  · rw [hch₆, hch₅, hch₄, hch₃, hch₂, hch₁]
    rfl
  · rw [hch₆, hch₅, hch₄, hch₃, hch₂, hch₁]
    rfl

theorem prefix_of_zero {l l' : List ℤ} (hle : (l : Multiset ℤ) ≤ l') (hzero : ∀ a ∈ l', a = 0) :
    l <+: l' := by
  have hl' := List.eq_replicate_of_mem hzero
  have hl := List.eq_replicate_of_mem fun a ha => hzero a (Multiset.mem_of_le hle ha)
  have hlength : l.length ≤ l'.length := Multiset.card_le_card hle
  rw [hl, hl']
  exact ⟨List.replicate (l'.length - l.length) 0, by
    rw [List.replicate_append_replicate, Nat.add_sub_cancel' hlength]⟩

/-- The consumer pops the numbers in the order in which they were pushed, under any schedule,
exactly if there is no second worker that could overtake, or no second number. -/
theorem in_order_iff : (∀ s, T.lts.Reachable s →
      (s.queue .workerConsumer).popped <+: (s.queue .producerWorker).pushed.filter (0 ≤ ·)) ↔
    T.nWorkers ≤ 1 ∨ T.nNumbers ≤ 1 ∨ T.nProducers = 0 := by
  constructor
  · intro horder
    by_contra hnot
    push Not at hnot
    obtain ⟨hworkers, hnumbers, hproducers⟩ := hnot
    obtain ⟨t, h, hpopped, hpushed⟩ := overtaken hproducers hnumbers hworkers
    have hprefix : (t.channel .workerConsumer).popped <+:
        (t.channel .producerWorker).pushed.filter (0 ≤ ·) :=
      horder (Clients.quiet t) (Clients.quiet_reachable h)
    rw [hpopped, hpushed] at hprefix
    revert hprefix
    decide
  · rintro hone s h
    have hreach := channels_reachable h
    have hle : ((s.queue .workerConsumer).popped : Multiset ℤ) ≤
        ((s.queue .producerWorker).pushed.filter (0 ≤ ·) : List ℤ) := popped_le_pushed hreach
    have hall : (((s.queue .producerWorker).pushed.filter (0 ≤ ·) : List ℤ) : Multiset ℤ) ≤
        T.allNumbers := pushed_le hreach
    rcases hone with hworkers | hnumbers | hproducers
    · exact order_of_one_worker hworkers h
    · refine prefix_of_zero hle fun a ha => ?_
      obtain ⟨hnonneg, hlt⟩ := mem_allNumbers (Multiset.mem_of_le hall ha)
      omega
    · refine prefix_of_zero hle fun a ha => ?_
      have hmem := Multiset.mem_of_le hall ha
      rw [allNumbers, hproducers, zero_nsmul] at hmem
      exact absurd hmem (Multiset.notMem_zero a)

end queues

end QueueTest

end Nanonet
