import Nanonet.Lib.Count
import Nanonet.Queue.SafeQueue

/-!
# No lost wakeup

While a consumer sleeps, the elements in the queue are at most as many as the consumers that were
woken and have not re-checked yet, together with the pushers that have not notified yet
(`DataInv`); `SpaceInv` is the same for the free slots. Each step moves at most one unit between
the two sides, so both are preserved, and with the owner of the mutex known (`OwnerInv`) they rule
out that every thread is blocked while a sleeper could go on.
-/

namespace Nanonet

namespace QueuePc

variable {α : Type*}

/-- The consumers and pushers around `has_data`. -/
def dataWaiters : Waiters (QueuePc α) where
  asleep
    | .sleepPop => true
    | _ => false
  woken
    | .enterPop w => w
    | .checkPop w => w
    | _ => false
  owes
    | .leavePush => true
    | .notifyData => true
    | _ => false

/-- The producers and poppers around `has_space`. -/
def spaceWaiters : Waiters (QueuePc α) where
  asleep
    | .sleepPush _ => true
    | _ => false
  woken
    | .enterPush _ w => w
    | .checkPush _ w => w
    | _ => false
  owes
    | .leavePop _ => true
    | .notifySpace _ => true
    | _ => false

/-- Between locking and unlocking the mutex. -/
def holds : QueuePc α → Bool
  | .checkPush _ _ => true
  | .leavePush => true
  | .checkPop _ => true
  | .leavePop _ => true
  | _ => false

def rests : QueuePc α → Bool
  | .idle => true
  | .sleepPush _ => true
  | .sleepPop => true
  | _ => false

end QueuePc

namespace SafeQueue

open QueuePc

variable {Tid α : Type*} [DecidableEq Tid] {cfg : QueueConfig}

/-! ### The mutex -/

/-- The thread inside a critical section is the owner of the mutex. -/
def OwnerInv (s : SafeQueue Tid α) : Prop := ∀ i, (s.pc i).holds = true ↔ s.owner = some i

section owner

variable {s : SafeQueue Tid α} {i : Tid} {pc : QueuePc α}

theorem OwnerInv.keep (h : s.OwnerInv) (hpc : pc.holds = (s.pc i).holds) :
    (s.goto i pc).OwnerInv := by
  intro j
  by_cases hji : j = i
  · subst hji
    rw [goto_pc, Function.update_self, hpc]
    exact h j
  · rw [goto_pc, Function.update_of_ne hji]
    exact h j

theorem OwnerInv.acquire (h : s.OwnerInv) (hnone : s.owner = none) (hpc : pc.holds = true) :
    ({ s with owner := some i }.goto i pc).OwnerInv := by
  intro j
  by_cases hji : j = i
  · subst hji
    simp [hpc]
  · have hj := h j
    rw [hnone] at hj
    simp [Function.update_of_ne hji, hj, Ne.symm hji]

theorem OwnerInv.release (h : s.OwnerInv) (hold : (s.pc i).holds = true) (hpc : pc.holds = false) :
    ({ s with owner := none }.goto i pc).OwnerInv := by
  intro j
  by_cases hji : j = i
  · subst hji
    simp [hpc]
  · have hj := h j
    rw [(h i).1 hold] at hj
    simp [Function.update_of_ne hji, hj, Ne.symm hji]

end owner

theorem OwnerInv.step {s s' : SafeQueue Tid α} {l : Tid × StepKind} (h : s.OwnerInv)
    (hstep : Step cfg s l s') : s'.OwnerInv := by
  cases hstep with
  | callPush t hpc => exact h.keep (by rw [hpc]; rfl)
  | callPop hpc => exact h.keep (by rw [hpc]; rfl)
  | lockPush _ hnone => exact h.acquire hnone rfl
  | waitPush hpc _ => exact h.release (by rw [hpc]; rfl) rfl
  | push hpc _ => exact OwnerInv.keep (s := { s with q := _, pushed := _ }) h (by rw [hpc]; rfl)
  | unlockPush hpc => exact h.release (by rw [hpc]; rfl) rfl
  | @notifyData i j hpc hj =>
    have hji : j ≠ i := by
      rintro rfl
      rw [hpc] at hj
      cases hj
    have hidle : (s.goto i .idle).OwnerInv := h.keep (by rw [hpc]; rfl)
    apply hidle.keep
    rw [goto_pc, Function.update_of_ne hji, hj]
    rfl
  | notifyNoData hpc _ => exact h.keep (by rw [hpc]; rfl)
  | lockPop _ hnone => exact h.acquire hnone rfl
  | waitPop hpc _ => exact h.release (by rw [hpc]; rfl) rfl
  | pop hpc _ => exact OwnerInv.keep (s := { s with q := _, popped := _ }) h (by rw [hpc]; rfl)
  | unlockPop hpc => exact h.release (by rw [hpc]; rfl) rfl
  | @notifySpace i t u j hpc _ hj =>
    have hji : j ≠ i := by
      rintro rfl
      rw [hpc] at hj
      cases hj
    have hidle : (s.goto i .idle).OwnerInv := h.keep (by rw [hpc]; rfl)
    apply hidle.keep
    rw [goto_pc, Function.update_of_ne hji, hj]
    rfl
  | notifyNoSpace hpc _ => exact h.keep (by rw [hpc]; rfl)
  | wakePush hpc => exact h.keep (by rw [hpc]; rfl)
  | wakePop hpc => exact h.keep (by rw [hpc]; rfl)

theorem ownerInv {s : SafeQueue Tid α} (h : (lts Tid α cfg).Reachable s) : s.OwnerInv := by
  refine h.invariant ?_ fun _ _ _ _ hinv hstep => hinv.step hstep
  rintro s rfl i
  simp [start, holds]

/-! ### The waiters -/

section waiters

variable [Fintype Tid] {s s' : SafeQueue Tid α} {l : Tid × StepKind}

/-- Each element in the queue while a consumer sleeps. -/
def DataInv (s : SafeQueue Tid α) : Prop := dataWaiters.Covered s.q.length s.pc

/-- Each free slot while a producer sleeps. -/
def SpaceInv (cfg : QueueConfig) (s : SafeQueue Tid α) : Prop :=
  spaceWaiters.Covered (cfg.capacity - s.q.length) s.pc

omit [DecidableEq Tid] [Fintype Tid] in
theorem ne_of_pc {i j : Tid} {pc pc' : QueuePc α} (hi : s.pc i = pc) (hj : s.pc j = pc')
    (hne : pc' ≠ pc) : j ≠ i := by
  rintro rfl
  exact hne (hj.symm.trans hi)

theorem DataInv.step (h : s.DataInv) (hstep : Step cfg s l s') : s'.DataInv := by
  unfold DataInv at *
  cases hstep with
  | callPush t hpc => exact h.update _ _ (by simp [dataWaiters]) (by simp [dataWaiters, hpc])
  | callPop hpc => exact h.update _ _ (by simp [dataWaiters]) (by simp [dataWaiters, hpc])
  | lockPush hpc _ => exact h.update _ _ (by simp [dataWaiters]) (by simp [dataWaiters, hpc])
  | waitPush hpc _ => exact h.update _ _ (by simp [dataWaiters]) (by simp [dataWaiters, hpc])
  | push hpc _ => exact h.update _ _ (by simp [dataWaiters]) (by simp [dataWaiters, hpc])
  | unlockPush hpc => exact h.update _ _ (by simp [dataWaiters]) (by simp [dataWaiters, hpc])
  | notifyData j hpc hj =>
    refine h.notify (ne_of_pc hpc hj (by simp)) ?_ ?_ ?_ ?_ rfl <;> simp [dataWaiters, hpc, hj]
  | notifyNoData hpc hnone =>
    refine Waiters.Covered.notifyNone (fun j => ?_) rfl
    have hj := hnone j
    cases hpcj : s.pc j <;> first | rfl | exact absurd hpcj hj
  | lockPop hpc _ => exact h.update _ _ (by simp [dataWaiters]) (by simp [dataWaiters, hpc])
  | waitPop hpc hq => exact h.update _ _ (by simp [hq]) (by simp [dataWaiters])
  | pop hpc hq =>
    apply h.update _ _ (by simp [dataWaiters])
    intro _
    have hone := Bool.toNat_le
    simp [dataWaiters, hpc, hq, hone]
  | unlockPop hpc => exact h.update _ _ (by simp [dataWaiters]) (by simp [dataWaiters, hpc])
  | @notifySpace i t u j hpc _ hj =>
    have hji := ne_of_pc hpc hj (by simp)
    have hidle : dataWaiters.Covered s.q.length (Function.update s.pc i .idle) :=
      h.update i .idle (by simp [dataWaiters]) (by simp [dataWaiters, hpc])
    exact hidle.update _ _ (by simp [dataWaiters])
      (by simp [dataWaiters, Function.update_of_ne hji, hj])
  | notifyNoSpace hpc _ => exact h.update _ _ (by simp [dataWaiters]) (by simp [dataWaiters, hpc])
  | wakePush hpc => exact h.update _ _ (by simp [dataWaiters]) (by simp [dataWaiters, hpc])
  | wakePop hpc => exact h.update _ _ (by simp [dataWaiters]) (by simp [dataWaiters, hpc])

theorem SpaceInv.step (h : s.SpaceInv cfg) (hbounded : cfg.bounded = true)
    (hlen : s.q.length ≤ cfg.capacity) (hstep : Step cfg s l s') : s'.SpaceInv cfg := by
  unfold SpaceInv at *
  cases hstep with
  | callPush t hpc => exact h.update _ _ (by simp [spaceWaiters]) (by simp [spaceWaiters, hpc])
  | callPop hpc => exact h.update _ _ (by simp [spaceWaiters]) (by simp [spaceWaiters, hpc])
  | lockPush hpc _ => exact h.update _ _ (by simp [spaceWaiters]) (by simp [spaceWaiters, hpc])
  | waitPush hpc hfull =>
    exact h.update _ _ (fun _ => by simp [hfull.2]) (by simp [spaceWaiters])
  | @push i t w hpc hfull =>
    apply h.update _ _ (by simp [spaceWaiters])
    intro _
    have hlt : s.q.length < cfg.capacity := Nat.lt_of_le_of_ne hlen fun heq => hfull ⟨hbounded, heq⟩
    have hone := Bool.toNat_le w
    simp only [spaceWaiters, hpc, goto_q, List.length_append, List.length_singleton,
      Bool.toNat_false]
    omega
  | unlockPush hpc => exact h.update _ _ (by simp [spaceWaiters]) (by simp [spaceWaiters, hpc])
  | @notifyData i j hpc hj =>
    have hji := ne_of_pc hpc hj (by simp)
    have hidle : spaceWaiters.Covered (cfg.capacity - s.q.length) (Function.update s.pc i .idle) :=
      h.update i .idle (by simp [spaceWaiters]) (by simp [spaceWaiters, hpc])
    exact hidle.update _ _ (by simp [spaceWaiters])
      (by simp [spaceWaiters, Function.update_of_ne hji, hj])
  | notifyNoData hpc _ => exact h.update _ _ (by simp [spaceWaiters]) (by simp [spaceWaiters, hpc])
  | lockPop hpc _ => exact h.update _ _ (by simp [spaceWaiters]) (by simp [spaceWaiters, hpc])
  | waitPop hpc _ => exact h.update _ _ (by simp [spaceWaiters]) (by simp [spaceWaiters, hpc])
  | pop hpc hq =>
    apply h.update _ _ (by simp [spaceWaiters])
    intro _
    simp only [spaceWaiters, hpc, goto_q, hq, List.length_cons, Bool.toNat_false, Bool.toNat_true]
    omega
  | unlockPop hpc => exact h.update _ _ (by simp [spaceWaiters]) (by simp [spaceWaiters, hpc])
  | notifySpace j hpc _ hj =>
    refine h.notify (ne_of_pc hpc hj (by simp)) ?_ ?_ ?_ ?_ rfl <;> simp [spaceWaiters, hpc, hj]
  | notifyNoSpace hpc hnone =>
    refine Waiters.Covered.notifyNone (fun j => ?_) rfl
    have hj := hnone hbounded j
    cases hpcj : s.pc j <;> first | rfl | exact absurd hpcj (hj _)
  | wakePush hpc => exact h.update _ _ (by simp [spaceWaiters]) (by simp [spaceWaiters, hpc])
  | wakePop hpc => exact h.update _ _ (by simp [spaceWaiters]) (by simp [spaceWaiters, hpc])

theorem dataInv (h : (lts Tid α cfg).Reachable s) : s.DataInv := by
  refine h.invariant ?_ fun _ _ _ _ hinv hstep => hinv.step hstep
  rintro s rfl _
  exact Nat.zero_le _

theorem spaceInv (hbounded : cfg.bounded = true) (h : (lts Tid α cfg).Reachable s) :
    s.SpaceInv cfg := by
  refine h.invariant ?_ fun _ _ _ hreach hinv hstep => hinv.step hbounded ?_ hstep
  · rintro s rfl hasleep
    obtain ⟨i, hi⟩ := countOf_pos.1 hasleep
    cases hi
  · obtain ⟨-, hlen⟩ := (simulates cfg).invariant (fun _ => Channel.fifo) hreach
    exact hlen _ (by simp [QueueConfig.limit, hbounded])

end waiters

/-! ### Some thread can go on -/

theorem step_of_holds {s : SafeQueue Tid α} {i : Tid} (h : (s.pc i).holds = true) :
    ∃ s', Step cfg s (i, .code) s' := by
  cases hpc : s.pc i with
  | checkPush t w =>
    by_cases hfull : Full cfg s.q
    · exact ⟨_, .waitPush hpc hfull⟩
    · exact ⟨_, .push hpc hfull⟩
  | leavePush => exact ⟨_, .unlockPush hpc⟩
  | checkPop w =>
    cases hq : s.q with
    | nil => exact ⟨_, .waitPop hpc hq⟩
    | cons t q => exact ⟨_, .pop hpc hq⟩
  | leavePop t => exact ⟨_, .unlockPop hpc⟩
  | _ =>
    rw [hpc] at h
    cases h

/-- While a thread is neither asleep nor outside of every call, some thread can go on. -/
theorem exists_step {s : SafeQueue Tid α} (howner : s.OwnerInv) {i : Tid}
    (h : (s.pc i).rests = false) : ∃ j s', Step cfg s (j, .code) s' := by
  have hlock : s.owner ≠ none → ∃ j s', Step cfg s (j, .code) s' := by
    intro hsome
    obtain ⟨j, hj⟩ := Option.ne_none_iff_exists'.1 hsome
    exact ⟨j, step_of_holds ((howner j).2 hj)⟩
  by_cases hholds : (s.pc i).holds = true
  · exact ⟨i, step_of_holds hholds⟩
  · by_cases hnone : s.owner = none
    · cases hpc : s.pc i with
      | enterPush t w => exact ⟨i, _, .lockPush hpc hnone⟩
      | enterPop w => exact ⟨i, _, .lockPop hpc hnone⟩
      | notifyData =>
        by_cases hsleep : ∃ j, s.pc j = .sleepPop
        · obtain ⟨j, hj⟩ := hsleep
          exact ⟨i, _, .notifyData j hpc hj⟩
        · exact ⟨i, _, .notifyNoData hpc (not_exists.1 hsleep)⟩
      | notifySpace t =>
        by_cases hsleep : cfg.bounded = true ∧ ∃ j u, s.pc j = .sleepPush u
        · obtain ⟨hbounded, j, u, hj⟩ := hsleep
          exact ⟨i, _, .notifySpace j hpc hbounded hj⟩
        · exact ⟨i, _, .notifyNoSpace hpc fun hbounded j u hj => hsleep ⟨hbounded, j, u, hj⟩⟩
      | _ => simp [hpc, rests, holds] at h hholds
    · exact hlock hnone

/-- **No lost wakeup.** While an element is in the queue and a consumer asleep, some consumer was
woken and will re-check, or some pusher has yet to notify; and so for a free slot and the producers.
So some thread can go on. -/
theorem no_lost_wakeup [Fintype Tid] (cfg : QueueConfig) {s : SafeQueue Tid α}
    (h : (lts Tid α cfg).Reachable s) :
    (s.q ≠ [] → (∃ i, dataWaiters.asleep (s.pc i) = true) →
        (∃ j, dataWaiters.woken (s.pc j) = true) ∨ ∃ j, dataWaiters.owes (s.pc j) = true) ∧
      (cfg.bounded = true → s.q.length ≠ cfg.capacity →
        (∃ i, spaceWaiters.asleep (s.pc i) = true) →
          (∃ j, spaceWaiters.woken (s.pc j) = true) ∨ ∃ j, spaceWaiters.owes (s.pc j) = true) ∧
      ((s.q ≠ [] ∧ ∃ i, dataWaiters.asleep (s.pc i) = true) ∨
          (cfg.bounded = true ∧ s.q.length ≠ cfg.capacity ∧
            ∃ i, spaceWaiters.asleep (s.pc i) = true) →
        ∃ j s', Step cfg s (j, .code) s') := by
  have hdata : s.q ≠ [] → (∃ i, dataWaiters.asleep (s.pc i) = true) →
      (∃ j, dataWaiters.woken (s.pc j) = true) ∨ ∃ j, dataWaiters.owes (s.pc j) = true :=
    fun hq ⟨i, hi⟩ => (dataInv h).exists (List.length_pos_iff.2 hq) hi
  have hspace : cfg.bounded = true → s.q.length ≠ cfg.capacity →
      (∃ i, spaceWaiters.asleep (s.pc i) = true) →
        (∃ j, spaceWaiters.woken (s.pc j) = true) ∨ ∃ j, spaceWaiters.owes (s.pc j) = true := by
    rintro hbounded hne ⟨i, hi⟩
    obtain ⟨-, hlen⟩ := (simulates cfg).invariant (fun _ => Channel.fifo) h
    have hle : s.q.length ≤ cfg.capacity := hlen _ (by simp [QueueConfig.limit, hbounded])
    exact (spaceInv hbounded h).exists (by omega) hi
  refine ⟨hdata, hspace, ?_⟩
  have hactive : ∀ j, (dataWaiters.woken (s.pc j) = true ∨ dataWaiters.owes (s.pc j) = true) ∨
      (spaceWaiters.woken (s.pc j) = true ∨ spaceWaiters.owes (s.pc j) = true) →
        ∃ j s', Step cfg s (j, .code) s' := by
    intro j hj
    apply exists_step (ownerInv h) (i := j)
    cases hpc : s.pc j <;> simp [hpc, dataWaiters, spaceWaiters, rests] at hj ⊢
  rintro (⟨hq, hi⟩ | ⟨hbounded, hne, hi⟩)
  · obtain ⟨j, hj⟩ | ⟨j, hj⟩ := hdata hq hi
    · exact hactive j (.inl (.inl hj))
    · exact hactive j (.inl (.inr hj))
  · obtain ⟨j, hj⟩ | ⟨j, hj⟩ := hspace hbounded hne hi
    · exact hactive j (.inr (.inl hj))
    · exact hactive j (.inr (.inr hj))

/-- A consumer went to sleep, then a producer pushed one element and has not notified yet. -/
theorem no_lost_wakeup_sleeper :
    ∃ s : SafeQueue Bool Nat, (lts Bool Nat ⟨false, 1, Nat.le_refl 1⟩).Reachable s ∧
      s.q = [7] ∧ s.pc true = .sleepPop ∧
      ((∃ j, dataWaiters.woken (s.pc j) = true) ∨ ∃ j, dataWaiters.owes (s.pc j) = true) ∧
      ∃ j s', Step ⟨false, 1, Nat.le_refl 1⟩ s (j, .code) s' := by
  have hsleep : (lts Bool Nat ⟨false, 1, Nat.le_refl 1⟩).Reachable _ :=
    .step (.step (.step (.init rfl) (.callPop (s := start) (i := true) rfl))
      (.lockPop (i := true) (w := false) rfl rfl)) (.waitPop (i := true) (w := false) rfl rfl)
  have hreach : (lts Bool Nat ⟨false, 1, Nat.le_refl 1⟩).Reachable _ :=
    .step (.step (.step hsleep (.callPush (i := false) 7 rfl))
      (.lockPush (i := false) (t := 7) (w := false) rfl rfl))
      (.push (i := false) (t := 7) (w := false) rfl fun h => by cases h.1)
  obtain ⟨hdata, -, hstep⟩ := no_lost_wakeup ⟨false, 1, Nat.le_refl 1⟩ hreach
  have hq : [7] ≠ [] := List.cons_ne_nil 7 []
  exact ⟨_, hreach, rfl, rfl, hdata hq ⟨true, rfl⟩, hstep (.inl ⟨hq, true, rfl⟩)⟩

end SafeQueue

end Nanonet
