import Nanonet.Queue.QueueTest

/-!
# The end of the queue test

`test_safe_queue` reaches its end under any schedule, unless there are numbers but no worker: for
every worker there is a `-1`, every step leaves less to do, and some thread can go on until the main
thread has returned. All this is with channels for the queues, and what follows from it for the
queues is at the end (`counts_right`, `test_safe_queue_ends`).
-/

namespace Nanonet

namespace QueueTest

variable {T : QueueTest} {t t' : Threads T.Thread Queue ℤ T.Place} {i : T.Thread} {place : T.Place}

/-! ### The workers are laid off -/

/-- A `-1` that is still to be pushed, or that made a worker return. -/
def marks : T.Place → ℕ
  | .workerReturned => 1
  | .consuming _ _ | .joiningProducers _ _ | .failed => T.nWorkers
  | .layingOff left => left + 1
  | _ => 0

def marksIn (channel : Queue → Channel ℤ) : ℕ :=
  (channel .producerWorker).content.countP (· < 0)

theorem marks_joinWorkers (ts : List T.Thread) : marks (T.joinWorkers ts) = 0 := by
  cases ts <;> rfl

theorem marks_layOff (left : ℕ) : marks (T.layOff left) = left := by
  cases left
  · exact marks_joinWorkers _
  · rfl

theorem marks_joinProducers (ts : List T.Thread) :
    marks (T.joinProducers ts) = T.nWorkers := by
  cases ts
  · exact marks_layOff _
  · rfl

theorem marks_consume (count : ℕ) (numbers : List ℕ) :
    marks (T.consume count numbers) = T.nWorkers := by
  unfold consume
  split_ifs
  · rfl
  · exact marks_joinProducers _
  · rfl

theorem marks_countNumber (count : ℕ) (numbers : List ℕ) (a : ℤ) :
    marks (T.countNumber count numbers a) = T.nWorkers := by
  unfold countNumber
  split_ifs
  · exact marks_consume _ _
  · rfl

theorem marks_produce (i : ℕ) : marks (T.produce i) = 0 := by
  unfold produce
  split_ifs <;> rfl

theorem Move.marks_eq {channel : Queue → Channel ℤ} (h : Move T t i place channel) :
    marks place + marksIn channel = marks (t.pc i) + marksIn t.channel := by
  cases h with
  | @produce p k hpc _ =>
    have hnot : ¬ (k : ℤ) < 0 := not_lt.2 (Int.natCast_nonneg k)
    rw [hpc, marks_produce]
    simp [marks, marksIn, Channel.push, hnot]
  | @take w a ch hpc hpop =>
    obtain ⟨content, hcontent, rfl⟩ := Channel.pop_eq_some hpop
    rw [hpc, marksIn, marksIn, hcontent, work, Function.update_self]
    split_ifs with hnonneg
    · simp [marks, not_lt.2 hnonneg]
    · simp [marks, not_le.1 hnonneg, add_comm]
  | pass hpc _ =>
    rw [hpc]
    rfl
  | consume hpc _ =>
    rw [hpc, marks_countNumber]
    rfl
  | joinProducer hpc => rw [hpc, marks_joinProducers, marks]
  | layOff hpc =>
    rw [hpc, marks_layOff]
    simp [marks, marksIn, Channel.push]
    omega
  | joinWorker hpc _ =>
    rw [hpc, marks_joinWorkers]
    rfl

theorem marks_total (h : T.channels.Reachable t) :
    ∑ w : Fin T.nWorkers, marks (t.pc (.worker w)) + marks (t.pc .main) + marksIn t.channel =
      T.nWorkers := by
  have htotal := total_eq marks marksIn Move.marks_eq h
  have hproducers : ∑ p : Fin T.nProducers, marks (t.pc (.producer p)) = 0 := by
    apply Finset.sum_eq_zero
    intro p _
    rcases (roles h (.producer p)).producer with ⟨i, -, hpc⟩ | hpc <;> rw [hpc] <;> rfl
  have hbegins : ∑ i, marks (T.begins i) = T.nWorkers := by
    have hpopping : marks (.popping : T.Place) = 0 := rfl
    rw [sum_threads]
    simp [begins, marks_produce, marks_consume, hpopping]
  rw [hbegins, sum_threads, hproducers, Nat.zero_add] at htotal
  exact htotal

/-! ### The steps that are left -/

/-- The steps that a place leads to: a number is pushed and popped twice, a `-1` once. -/
def todo : T.Place → ℕ
  | .producing i => 4 * (T.nNumbers - i)
  | .pushing _ => 2
  | .consuming _ _ => T.nProducers + 3 * T.nWorkers
  | .joiningProducers _ ts => ts.length + 1 + 3 * T.nWorkers
  | .layingOff left => 2 * (left + 1) + T.nWorkers
  | .joiningWorkers _ ts => ts.length + 1
  | _ => 0

/-- The steps that the elements of the queues lead to. -/
def todoIn (channel : Queue → Channel ℤ) : ℕ :=
  ((channel .producerWorker).content.map fun a => if 0 ≤ a then 3 else 1).sum +
    (channel .workerConsumer).content.length

theorem todo_produce (i : ℕ) : todo (T.produce i) = 4 * (T.nNumbers - i) := by
  unfold produce
  split_ifs with h
  · rfl
  · rw [Nat.sub_eq_zero_of_le (not_lt.1 h)]
    rfl

theorem todo_joinWorkers (ts : List T.Thread) : todo (T.joinWorkers ts) = ts.length := by
  cases ts <;> rfl

theorem todo_layOff (left : ℕ) : todo (T.layOff left) = 2 * left + T.nWorkers := by
  cases left with
  | zero =>
    rw [layOff, todo_joinWorkers, List.length_map, List.length_finRange]
    omega
  | succ left => rfl

theorem todo_joinProducers (ts : List T.Thread) :
    todo (T.joinProducers ts) = ts.length + 3 * T.nWorkers := by
  cases ts with
  | nil =>
    rw [joinProducers, todo_layOff, List.length_nil]
    omega
  | cons j ts => rfl

theorem todo_consume_le (count : ℕ) (numbers : List ℕ) :
    todo (T.consume count numbers) ≤ T.nProducers + 3 * T.nWorkers := by
  unfold consume
  split_ifs
  · exact le_rfl
  · rw [todo_joinProducers, List.length_map, List.length_finRange]
  · exact Nat.zero_le _

theorem todo_countNumber_le (count : ℕ) (numbers : List ℕ) (a : ℤ) :
    todo (T.countNumber count numbers a) ≤ T.nProducers + 3 * T.nWorkers := by
  unfold countNumber
  split_ifs
  · exact todo_consume_le _ _
  · exact Nat.zero_le _

theorem todoIn_take {a : ℤ} {ch : Channel ℤ}
    (hpop : (t.channel .producerWorker).pop = some (a, ch)) :
    todoIn t.channel =
      (if 0 ≤ a then 3 else 1) + todoIn (Function.update t.channel .producerWorker ch) := by
  obtain ⟨content, hcontent, rfl⟩ := Channel.pop_eq_some hpop
  rw [todoIn, hcontent, List.map_cons, List.sum_cons, Nat.add_assoc]
  rfl

theorem Move.todo_lt {channel : Queue → Channel ℤ} (h : Move T t i place channel) :
    todo place + todoIn channel + 1 ≤ todo (t.pc i) + todoIn t.channel := by
  cases h with
  | @produce p k hpc hlt =>
    rw [hpc, todo_produce]
    simp [todo, todoIn, Channel.push]
    omega
  | @take w a ch hpc hpop =>
    have hpopping : todo (.popping : T.Place) = 0 := rfl
    have hpushing : todo (.pushing a : T.Place) = 2 := rfl
    have hreturned : todo (.workerReturned : T.Place) = 0 := rfl
    rw [hpc, hpopping, todoIn_take hpop, work]
    split_ifs <;> omega
  | @pass w a hpc _ =>
    rw [hpc]
    simp [todo, todoIn, Channel.push]
    omega
  | @consume count numbers a ch hpc hpop =>
    obtain ⟨content, hcontent, rfl⟩ := Channel.pop_eq_some hpop
    have hle := todo_countNumber_le (T := T) count numbers a
    have hconsuming : todo (.consuming count numbers) = T.nProducers + 3 * T.nWorkers := rfl
    rw [hpc, hconsuming]
    simp [todoIn, hcontent]
    omega
  | joinProducer hpc =>
    rw [hpc, todo_joinProducers]
    simp only [todo]
    omega
  | layOff hpc =>
    rw [hpc, todo_layOff]
    simp [todo, todoIn, Channel.push]
    omega
  | joinWorker hpc _ =>
    rw [hpc, todo_joinWorkers]
    simp only [todo]
    omega

def todoOf (t : Threads T.Thread Queue ℤ T.Place) : ℕ := ∑ i, todo (t.pc i) + todoIn t.channel

theorem todoOf_lt (hreach : T.channels.Reachable t)
    (h : Threads.Step T.program (fun _ => T.queueSize.limit) t i t') :
    todoOf t' + 1 ≤ todoOf t := by
  obtain ⟨place, channel, hmove, rfl⟩ := move_of_step (roles hreach) h
  have hsum := sum_update todo t.pc i place
  have hlt := hmove.todo_lt
  simp only [todoOf]
  omega

theorem todoOf_start_le : todoOf (.start T.begins) ≤
    4 * (T.nProducers * T.nNumbers) + T.nProducers + 3 * T.nWorkers := by
  have hmain := todo_consume_le (T := T) 0 (List.replicate T.nNumbers 0)
  have hworkers : ∑ w : Fin T.nWorkers, todo (T.begins (.worker w)) = 0 :=
    Finset.sum_eq_zero fun _ _ => rfl
  have hproducers : ∑ p : Fin T.nProducers, todo (T.begins (.producer p)) =
      4 * (T.nProducers * T.nNumbers) := by
    simp only [begins, todo_produce, Nat.sub_zero]
    rw [Finset.sum_const_nat fun _ _ => rfl, Finset.card_univ, Fintype.card_fin]
    exact Nat.mul_left_comm _ _ _
  have hin : todoIn (fun _ : Queue => (⟨[], [], []⟩ : Channel ℤ)) = 0 := rfl
  simp only [todoOf, Threads.start, sum_threads, hproducers, hworkers, hin]
  simp only [begins]
  omega

/-! ### Some thread can go on -/

def CanMove (t : Threads T.Thread Queue ℤ T.Place) : Prop :=
  ∃ i t', Threads.Step T.program (fun _ => T.queueSize.limit) t i t'

theorem room_of_nil {ch : Channel ℤ} (h : ch.content = []) :
    Channel.Room T.queueSize.limit ch := by
  intro n hn
  rw [QueueConfig.limit] at hn
  split_ifs at hn
  · cases hn
    rw [h]
    exact T.queueSize.one_le
  · cases hn

theorem canMove_push {x : Queue} {a : ℤ}
    (hreq : T.program.request (t.pc i) = some (.call x (.push a)))
    (hnil : (t.channel x).content = []) : CanMove t :=
  ⟨i, _, .push hreq (room_of_nil hnil)⟩

theorem canMove_pop {x : Queue} (hreq : T.program.request (t.pc i) = some (.call x .pop))
    (hnot : (t.channel x).content ≠ []) : CanMove t := by
  obtain ⟨a, content, hcontent⟩ := List.exists_cons_of_ne_nil hnot
  exact ⟨i, _, .pop hreq (Channel.pop_of_content hcontent)⟩

theorem laid_off (h : T.channels.Reachable t) :
    (∀ w, t.pc (.worker w) = .workerReturned) ↔
      marks (t.pc .main) + marksIn t.channel = 0 := by
  have htotal := marks_total h
  have hone : ∑ _w : Fin T.nWorkers, 1 = T.nWorkers := by simp
  have hle (w : Fin T.nWorkers) (_ : w ∈ Finset.univ) : marks (t.pc (.worker w)) ≤ 1 := by
    rcases (roles h (.worker w)).worker with hw | ⟨a, hw⟩ | hw <;> rw [hw] <;> simp [marks]
  have hall := Finset.sum_eq_sum_iff_of_le hle
  constructor
  · intro hreturned
    have hsum : ∑ w : Fin T.nWorkers, marks (t.pc (.worker w)) = T.nWorkers := by
      rw [hall.2 fun w _ => by rw [hreturned w]; rfl, hone]
    omega
  · intro hzero w
    have hmark := hall.1 (by omega) w (Finset.mem_univ w)
    rcases (roles h (.worker w)).worker with hw | ⟨a, hw⟩ | hw
    · rw [hw] at hmark
      cases hmark
    · rw [hw] at hmark
      cases hmark
    · exact hw

theorem not_returned (h : T.channels.Reachable t) (hmain : marks (t.pc .main) = T.nWorkers)
    (w : Fin T.nWorkers) : t.pc (.worker w) ≠ .workerReturned := by
  intro hw
  have htotal := marks_total h
  have hle : marks (t.pc (.worker w)) ≤ ∑ w : Fin T.nWorkers, marks (t.pc (.worker w)) :=
    Finset.single_le_sum (f := fun w => marks (t.pc (.worker w))) (fun _ _ => Nat.zero_le _)
      (Finset.mem_univ w)
  rw [hw] at hle
  have hmark : marks (.workerReturned : T.Place) = 1 := rfl
  omega

theorem canMove_consuming (h : T.channels.Reachable t)
    (hworker : T.nProducers * T.nNumbers ≠ 0 → 0 < T.nWorkers) {count : ℕ} {numbers : List ℕ}
    (hpc : t.pc .main = .consuming count numbers) : CanMove t := by
  have hok := mainOk h
  rw [MainOk, hpc] at hok
  obtain ⟨hlt, rfl, -⟩ := hok
  by_cases hsecond : (t.channel .workerConsumer).content = []
  swap
  · exact canMove_pop (i := .main) (by rw [hpc]; rfl) hsecond
  by_cases hpushing : ∃ w a, t.pc (.worker w) = .pushing a
  · obtain ⟨w, a, hw⟩ := hpushing
    exact canMove_push (i := .worker w) (by rw [hw]; rfl) hsecond
  have hpopping (w : Fin T.nWorkers) : t.pc (.worker w) = .popping := by
    rcases (roles h (.worker w)).worker with hw | ⟨a, hw⟩ | hw
    · exact hw
    · exact absurd ⟨w, a, hw⟩ hpushing
    · exact absurd hw (not_returned h (by rw [hpc]; rfl) w)
  by_cases hfirst : (t.channel .producerWorker).content = []
  swap
  · have hw := hpopping ⟨0, hworker (Nat.ne_zero_of_lt hlt)⟩
    exact canMove_pop (i := .worker _) (by rw [hw]; rfl) hfirst
  by_cases hproducing : ∃ p k, t.pc (.producer p) = .producing k
  · obtain ⟨p, k, hp⟩ := hproducing
    exact canMove_push (i := .producer p) (by rw [hp]; rfl) hfirst
  -- nothing is left to push or in a queue, so the consumer has counted everything
  exfalso
  have hload : ∑ i, load (t.pc i) = 0 := by
    apply Finset.sum_eq_zero
    rintro (p | w | _) _
    · rcases (roles h (.producer p)).producer with ⟨k, -, hp⟩ | hp
      · exact absurd ⟨p, k, hp⟩ hproducing
      · rw [hp]
        rfl
    · rw [hpopping w]
      rfl
    · exact load_main (roles h .main)
  have htotal := conserved h
  rw [hload, inQueues, hfirst, hsecond] at htotal
  have hcard := congrArg Multiset.card htotal
  rw [card_allNumbers] at hcard
  simp only [List.filter_nil, Multiset.coe_nil, zero_add, Multiset.coe_card] at hcard
  omega

section complete

variable (h : T.channels.Reachable t) (hcomplete : T.Complete (t.channel .workerConsumer).popped)

include h hcomplete

theorem producer_returned (p : Fin T.nProducers) : t.pc (.producer p) = .producerReturned := by
  rcases (roles h (.producer p)).producer with ⟨k, hk, hp⟩ | hp
  · have hload := (hcomplete.rest h).1 (.producer p)
    rw [hp, load, numbersFrom_of_lt hk] at hload
    exact absurd hload (Multiset.cons_ne_zero)
  · exact hp

theorem worker_cases (w : Fin T.nWorkers) :
    t.pc (.worker w) = .popping ∨ t.pc (.worker w) = .workerReturned := by
  rcases (roles h (.worker w)).worker with hw | ⟨a, hw⟩ | hw
  · exact .inl hw
  · have hload := (hcomplete.rest h).1 (.worker w)
    rw [hw] at hload
    exact absurd hload (Multiset.singleton_ne_zero a)
  · exact .inr hw

theorem marksIn_eq_length : marksIn t.channel = (t.channel .producerWorker).content.length := by
  rw [marksIn, List.countP_eq_length]
  intro a ha
  simpa using (hcomplete.rest h).2.1 a ha

theorem canMove_worker (hnot : (t.channel .producerWorker).content ≠ []) {w : Fin T.nWorkers}
    (hw : t.pc (.worker w) ≠ .workerReturned) : CanMove t := by
  obtain hpopping | hreturned := worker_cases h hcomplete w
  · exact canMove_pop (i := .worker w) (by rw [hpopping]; rfl) hnot
  · exact absurd hreturned hw

theorem canMove_layingOff {left : ℕ} (hpc : t.pc .main = .layingOff left) : CanMove t := by
  by_cases hfirst : (t.channel .producerWorker).content = []
  · exact canMove_push (i := .main) (by rw [hpc]; rfl) hfirst
  · have hnot : ¬ ∀ w, t.pc (.worker w) = .workerReturned := by
      rw [laid_off h, hpc]
      simp [marks]
    obtain ⟨w, hw⟩ := not_forall.1 hnot
    exact canMove_worker h hcomplete hfirst hw

theorem canMove_joiningWorkers {w : Fin T.nWorkers} {ts : List T.Thread}
    (hpc : t.pc .main = .joiningWorkers (.worker w) ts) : CanMove t := by
  by_cases hw : t.pc (.worker w) = .workerReturned
  · exact ⟨.main, _, .join (j := .worker w) (by rw [hpc]; rfl) (by rw [hw]; rfl)⟩
  · refine canMove_worker h hcomplete ?_ hw
    intro hfirst
    have hlength := marksIn_eq_length h hcomplete
    rw [hfirst] at hlength
    apply hw
    apply (laid_off h).2
    rw [hpc, hlength]
    rfl

end complete

/-- **No deadlock.** Until the test is over, some thread can go on, if there is a worker for the
numbers. -/
theorem canMove (h : T.channels.Reachable t)
    (hworker : T.nProducers * T.nNumbers ≠ 0 → 0 < T.nWorkers) (hmain : t.pc .main ≠ .ok) :
    CanMove t := by
  have hok := mainOk h
  rw [MainOk] at hok
  cases hpc : t.pc .main <;> rw [hpc] at hok
  case consuming count numbers => exact canMove_consuming h hworker hpc
  case joiningProducers j ts =>
    obtain ⟨hcomplete, hts⟩ := hok
    obtain ⟨p, rfl⟩ := hts j List.mem_cons_self
    have hp := producer_returned h hcomplete p
    exact ⟨.main, _, .join (j := .producer p) (by rw [hpc]; rfl) (by rw [hp]; rfl)⟩
  case layingOff left => exact canMove_layingOff h hok.1 hpc
  case joiningWorkers j ts =>
    obtain ⟨hcomplete, hts, -⟩ := hok
    obtain ⟨w, rfl⟩ := hts j List.mem_cons_self
    exact canMove_joiningWorkers h hcomplete hpc
  case ok => exact absurd hpc hmain
  all_goals exact hok.elim

theorem ended (h : T.channels.Reachable t) (hpc : t.pc .main = .ok) :
    (∀ p, t.pc (.producer p) = .producerReturned) ∧ (∀ w, t.pc (.worker w) = .workerReturned) ∧
      ∀ x, (t.channel x).content = [] := by
  have hok := mainOk h
  rw [MainOk, hpc] at hok
  obtain ⟨hcomplete, hworkers⟩ := hok
  refine ⟨producer_returned h hcomplete, hworkers, ?_⟩
  rintro (_ | _)
  · have hzero := (laid_off h).1 hworkers
    have hlength := marksIn_eq_length h hcomplete
    exact List.length_eq_zero_iff.1 (by omega)
  · exact (hcomplete.rest h).2.2

theorem nothing_popped (h : T.channels.Reachable t) (hnone : T.nWorkers = 0) :
    (t.channel .workerConsumer).popped = [] ∧ (t.channel .workerConsumer).content = [] := by
  refine invariant (P := fun t => (t.channel .workerConsumer).popped = [] ∧
    (t.channel .workerConsumer).content = []) ⟨rfl, rfl⟩ ?_ h
  intro t i place channel _ _ ht hmove
  cases hmove with
  | @pass w _ _ _ => exact absurd w.pos (by omega)
  | consume _ hpop =>
    obtain ⟨content, hcontent, -⟩ := Channel.pop_eq_some hpop
    rw [ht.2] at hcontent
    cases hcontent
  | _ => exact ht

/-! ### With the queues -/

section queues

variable {s : Clients T.Thread Queue ℤ T.Place} {ls : List (T.Thread × StepKind)}

def InConsumer : T.Place → Prop
  | .consuming _ _ => True
  | _ => False

theorem not_inConsumer_joinWorkers (ts : List T.Thread) : ¬ InConsumer (T.joinWorkers ts) := by
  cases ts <;> exact not_false

theorem not_inConsumer_layOff (left : ℕ) : ¬ InConsumer (T.layOff left) := by
  cases left
  · exact not_inConsumer_joinWorkers _
  · exact not_false

theorem not_inConsumer_joinProducers (ts : List T.Thread) :
    ¬ InConsumer (T.joinProducers ts) := by
  cases ts
  · exact not_inConsumer_layOff _
  · exact not_false

theorem not_inConsumer_resume {place : T.Place} (h : ¬ InConsumer place) (r : Option ℤ) :
    ¬ InConsumer (T.program.resume place r) := by
  cases place with
  | producing k =>
    show ¬ InConsumer (T.produce (k + 1))
    unfold produce
    split_ifs <;> exact not_false
  | popping =>
    cases r with
    | none => exact not_false
    | some a =>
      show ¬ InConsumer (T.work a)
      unfold work
      split_ifs <;> exact not_false
  | consuming _ _ => exact absurd trivial h
  | joiningProducers _ ts => exact not_inConsumer_joinProducers ts
  | layingOff left => exact not_inConsumer_layOff left
  | joiningWorkers _ ts => exact not_inConsumer_joinWorkers ts
  | _ => exact not_false

theorem not_inConsumer_place (h : ¬ InConsumer (s.pc .main)) :
    ¬ InConsumer ((s.threads T.program).pc .main) := by
  cases hout : s.outcome T.program .main with
  | none =>
    have hplace : (s.threads T.program).pc .main = s.pc .main := Clients.place_of_none hout
    rw [hplace]
    exact h
  | some r =>
    have hplace : (s.threads T.program).pc .main = T.program.resume (s.pc .main) r :=
      Clients.place_of_outcome hout
    rw [hplace]
    exact not_inConsumer_resume h r

theorem complete_of_not_inConsumer (h : T.channels.Reachable t)
    (hmain : ¬ InConsumer (t.pc .main)) : T.Complete (t.channel .workerConsumer).popped := by
  have hok := mainOk h
  rw [MainOk] at hok
  cases hpc : t.pc .main <;> rw [hpc] at hok hmain
  case consuming => exact absurd trivial hmain
  all_goals first | exact hok.1 | exact hok.elim

theorem channels_reachable (h : T.lts.Reachable s) : T.channels.Reachable (s.threads T.program) :=
  Clients.simulates.reachable h

theorem over_of_stuck (hworker : T.nProducers * T.nNumbers ≠ 0 → 0 < T.nWorkers)
    (h : T.lts.Reachable s) (hstuck : ∀ l s', l.2 ≠ .spurious → ¬ T.lts.step s l s') :
    s.pc .main = .ok ∧ (∀ p, s.pc (.producer p) = .producerReturned) ∧
      (∀ w, s.pc (.worker w) = .workerReturned) ∧ ∀ x, (s.queue x).q = [] := by
  have hreach := channels_reachable h
  obtain ⟨-, hplace, hnone⟩ := Clients.stuck h hstuck
  have hok : (s.threads T.program).pc .main = .ok := by
    by_contra hmain
    obtain ⟨i, t, hstep⟩ := canMove hreach hworker hmain
    exact hnone i t hstep
  have hended := ended hreach hok
  rw [hplace] at hok hended
  exact ⟨hok, hended⟩

theorem exists_over (hworker : T.nProducers * T.nNumbers ≠ 0 → 0 < T.nWorkers) :
    ∃ s, T.lts.Reachable s ∧ s.pc .main = .ok := by
  obtain ⟨s, hreach, hstuck⟩ :=
    Clients.exists_halt fun _ _ _ hreach hstep => todoOf_lt hreach hstep
  exact ⟨s, hreach, (over_of_stuck hworker hreach hstuck).1⟩

/-- **Every number is counted once for each producer.** Under any schedule the consumer never throws
and counts no number too often, and when it returned it has counted every number as often as there
are producers. -/
theorem counts_right (h : T.lts.Reachable s) :
    s.pc .main ≠ .failed ∧ ∀ k < T.nNumbers,
      (s.queue .workerConsumer).popped.count (k : ℤ) ≤ T.nProducers ∧
        (¬ InConsumer (s.pc .main) →
          (s.queue .workerConsumer).popped.count (k : ℤ) = T.nProducers) := by
  have hreach := channels_reachable h
  have hle := popped_le hreach
  constructor
  · intro hfailed
    have hplace : (s.threads T.program).pc .main = s.pc .main :=
      Clients.place_of_returned (by rw [hfailed]; rfl)
    have hok := mainOk hreach
    rw [MainOk, hplace, hfailed] at hok
    exact hok
  · intro k hk
    rw [← Multiset.coe_count, ← count_allNumbers hk]
    refine ⟨Multiset.count_le_of_le _ hle, fun hmain => ?_⟩
    have hcomplete := complete_of_not_inConsumer hreach (not_inConsumer_place hmain)
    rw [← hcomplete.popped_eq hle]
    rfl

/-- One thread of each kind, and one number. -/
def one : QueueTest := ⟨1, 1, 1, ⟨true, 1, Nat.le_refl 1⟩⟩

theorem counts_right_one : ∃ s, one.lts.Reachable s ∧ s.pc .main = .ok ∧
    (s.queue .workerConsumer).popped.count 0 = 1 := by
  obtain ⟨s, hreach, hok⟩ := exists_over (T := one) fun _ => Nat.one_pos
  have hnot : ¬ InConsumer (s.pc .main) := by
    rw [hok]
    exact not_false
  exact ⟨s, hreach, hok, ((counts_right hreach).2 0 Nat.one_pos).2 hnot⟩

theorem card_thread : Fintype.card T.Thread = T.nProducers + T.nWorkers + 1 := by
  rw [Fintype.card_congr (threadEquiv T)]
  simp

/-- **The test comes to an end**, if there is a worker for the numbers. Under any schedule there are
at most this many steps, and three for each spurious wakeup; and when no thread can go on, the main
thread is at the end, the others have returned and the queues are empty. -/
theorem test_safe_queue_ends (hworker : T.nProducers * T.nNumbers ≠ 0 → 0 < T.nWorkers)
    (h : T.lts.Run ls s) :
    ls.length ≤ 28 * (T.nProducers * T.nNumbers) + 13 * T.nProducers + 27 * T.nWorkers + 6 +
        3 * ls.countP (·.2 = .spurious) ∧
      ((∀ l s', l.2 ≠ .spurious → ¬ T.lts.step s l s') →
        s.pc .main = .ok ∧ (∀ p, s.pc (.producer p) = .producerReturned) ∧
          (∀ w, s.pc (.worker w) = .workerReturned) ∧ ∀ x, (s.queue x).q = []) := by
  refine ⟨?_, over_of_stuck hworker h.reachable⟩
  have hle := Clients.length_le_effort (fun _ _ _ hreach hstep => todoOf_lt hreach hstep) h
  have hstart := todoOf_start_le (T := T)
  have hqueues : Fintype.card Queue = 2 := rfl
  rw [hqueues, card_thread] at hle
  omega

/-- Two producers, two workers and two numbers, with queues that are full with one of them. -/
def two : QueueTest := ⟨2, 2, 2, ⟨true, 1, Nat.le_refl 1⟩⟩

theorem test_safe_queue_ends_two : ∃ ls s, two.lts.Run ls s ∧
    ls.length ≤ 198 + 3 * ls.countP (·.2 = .spurious) ∧ s.pc .main = .ok ∧
      (∀ w, s.pc (.worker w) = .workerReturned) ∧ ∀ x, (s.queue x).q = [] := by
  obtain ⟨s, hreach, hstuck⟩ : ∃ s, two.lts.Reachable s ∧
      ∀ l s', l.2 ≠ .spurious → ¬ two.lts.step s l s' :=
    Clients.exists_halt fun _ _ _ hreach hstep => todoOf_lt hreach hstep
  obtain ⟨ls, hrun⟩ := hreach.exists_run
  obtain ⟨hle, hends⟩ := test_safe_queue_ends (fun _ => Nat.two_pos) hrun
  obtain ⟨hok, -, hworkers, hempty⟩ := hends hstuck
  exact ⟨ls, s, hrun, hle, hok, hworkers, hempty⟩

/-- The test can come to an end exactly if there is a worker for the numbers. -/
theorem test_safe_queue_ends_iff : (∃ s, T.lts.Reachable s ∧ s.pc .main = .ok) ↔
    (T.nProducers * T.nNumbers ≠ 0 → 0 < T.nWorkers) := by
  constructor
  · rintro ⟨s, h, hok⟩ hnumbers
    by_contra hnone
    have hreach := channels_reachable h
    have hcomplete : T.Complete _ :=
      complete_of_not_inConsumer hreach (not_inConsumer_place (by rw [hok]; exact not_false))
    rw [(nothing_popped hreach (by omega)).1] at hcomplete
    exact hnumbers (Nat.le_zero.1 hcomplete)
  · exact exists_over

end queues

end QueueTest

end Nanonet
