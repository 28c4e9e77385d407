import Mathlib.Algebra.BigOperators.Group.Finset.Basic
import Mathlib.Data.Fintype.Basic

/-!
# Counting threads

How many members of a finite family satisfy a predicate, and how the number changes when one member
is updated. On it rests the invariant of a condition variable that is notified one waiter at a time,
after the mutex is released: while anyone sleeps, what is available is covered by the waiters that
were woken and the notifications that are outstanding.
-/

namespace Nanonet

variable {ι β : Type*} [Fintype ι]

/-- The number of members that satisfy `p`. -/
def countOf (p : β → Bool) (f : ι → β) : Nat := ∑ i, (p (f i)).toNat

theorem countOf_pos {p : β → Bool} {f : ι → β} : 0 < countOf p f ↔ ∃ i, p (f i) = true := by
  rw [countOf, Nat.pos_iff_ne_zero, ne_eq, Finset.sum_eq_zero_iff]
  simp

variable [DecidableEq ι]

theorem countOf_split (p : β → Bool) (f : ι → β) (i : ι) :
    countOf p f = (p (f i)).toNat + ∑ j ∈ Finset.univ.erase i, (p (f j)).toNat :=
  (Finset.add_sum_erase _ _ (Finset.mem_univ i)).symm

theorem countOf_update (p : β → Bool) (f : ι → β) (i : ι) (b : β) :
    countOf p (Function.update f i b) + (p (f i)).toNat = countOf p f + (p b).toNat := by
  have hrest : ∑ j ∈ Finset.univ.erase i, (p (Function.update f i b j)).toNat =
      ∑ j ∈ Finset.univ.erase i, (p (f j)).toNat :=
    Finset.sum_congr rfl fun j hj => by rw [Function.update_of_ne (Finset.ne_of_mem_erase hj)]
  rw [countOf_split p (Function.update f i b) i, countOf_split p f i, hrest,
    Function.update_self]
  omega

theorem sum_update {M : Type*} [AddCommMonoid M] (w : β → M) (f : ι → β) (i : ι) (b : β) :
    ∑ j, w (Function.update f i b j) + w (f i) = ∑ j, w (f j) + w b := by
  have hrest : ∑ j ∈ Finset.univ.erase i, w (Function.update f i b j) =
      ∑ j ∈ Finset.univ.erase i, w (f j) :=
    Finset.sum_congr rfl fun j hj => by rw [Function.update_of_ne (Finset.ne_of_mem_erase hj)]
  rw [← Finset.sum_erase_add _ _ (Finset.mem_univ i), hrest, Function.update_self,
    ← Finset.sum_erase_add (a := i) _ (fun j => w (f j)) (Finset.mem_univ i), add_right_comm]

/-! ### Waiters -/

/-- The threads a condition variable is about: those asleep on it, those that were woken and will
re-check, and those that have yet to notify it. -/
structure Waiters (β : Type*) where
  asleep : β → Bool
  woken : β → Bool
  owes : β → Bool

namespace Waiters

variable {c : Waiters β} {avail avail' : Nat} {f : ι → β}

/-- While anyone sleeps, everything available is somebody's to take or to announce. -/
def Covered (c : Waiters β) (avail : Nat) (f : ι → β) : Prop :=
  0 < countOf c.asleep f → avail ≤ countOf c.woken f + countOf c.owes f

omit [DecidableEq ι] in
theorem Covered.exists (h : c.Covered avail f) (havail : 0 < avail) {i : ι}
    (hi : c.asleep (f i) = true) :
    (∃ j, c.woken (f j) = true) ∨ ∃ j, c.owes (f j) = true := by
  have hle := h (countOf_pos.2 ⟨i, hi⟩)
  rw [← countOf_pos, ← countOf_pos]
  omega

theorem Covered.update (h : c.Covered avail f) (i : ι) (b : β)
    (hsleep : c.asleep b = true → avail' = 0)
    (hmove : c.asleep b = false → avail' + (c.woken (f i)).toNat + (c.owes (f i)).toNat ≤
      avail + (c.woken b).toNat + (c.owes b).toNat) :
    c.Covered avail' (Function.update f i b) := by
  intro hpos
  have hasleep := countOf_update c.asleep f i b
  have hwoken := countOf_update c.woken f i b
  have howes := countOf_update c.owes f i b
  cases hb : c.asleep b with
  | true =>
    rw [hsleep hb]
    exact Nat.zero_le _
  | false =>
    have hmove := hmove hb
    rw [hb, Bool.toNat_false] at hasleep
    have hle := h (by omega)
    omega

theorem Covered.notify (h : c.Covered avail f) {i j : ι} (hij : j ≠ i) {b b' : β}
    (hi : c.woken (f i) = false) (hj : c.asleep (f j) = true) (hjw : c.woken (f j) = false)
    (hjo : c.owes (f j) = false) (hb' : c.woken b' = true) :
    c.Covered avail (Function.update (Function.update f i b) j b') := by
  intro _
  have hfj : Function.update f i b j = f j := Function.update_of_ne hij _ _
  have hwoken := countOf_update c.woken (Function.update f i b) j b'
  have howes := countOf_update c.owes (Function.update f i b) j b'
  have hwoken' := countOf_update c.woken f i b
  have howes' := countOf_update c.owes f i b
  rw [hfj] at hwoken howes
  have hle := h (countOf_pos.2 ⟨j, hj⟩)
  have hone := Bool.toNat_le (c.owes (f i))
  rw [hjw, hb', Bool.toNat_true, Bool.toNat_false] at hwoken
  rw [hjo, Bool.toNat_false] at howes
  rw [hi, Bool.toNat_false] at hwoken'
  omega

theorem Covered.notifyNone {i : ι} {b : β} (hnone : ∀ j, c.asleep (f j) = false)
    (hb : c.asleep b = false) : c.Covered avail (Function.update f i b) := by
  intro hpos
  obtain ⟨j, hj⟩ := countOf_pos.1 hpos
  by_cases hji : j = i
  · rw [hji, Function.update_self, hb] at hj
    cases hj
  · rw [Function.update_of_ne hji, hnone j] at hj
    cases hj

end Waiters

end Nanonet
