import Mathlib.Algebra.BigOperators.Group.Finset.Basic
import Mathlib.Algebra.BigOperators.Group.Multiset.Basic

/-!
# Totals over families of finite support

What a family that changes one member at a time adds up to, when all but finitely many members weigh
nothing: an update takes the weight of the old member out and puts that of the new one in. The
weights are of any kind that can be added, so that one lemma serves a measure and the contents of a
distributed state.
-/

namespace Nanonet

variable {ι β M : Type*} [AddCommMonoid M] {w : β → M} {f : ι → β} {t t' : M}

/-- The weights of the members of `f` are zero outside of a finite set, and add up to `t`. -/
def HasTotal (w : β → M) (f : ι → β) (t : M) : Prop :=
  ∃ A : Finset ι, (∀ i ∉ A, w (f i) = 0) ∧ ∑ i ∈ A, w (f i) = t

namespace HasTotal

theorem of_zero (h : ∀ i, w (f i) = 0) : HasTotal w f 0 :=
  ⟨∅, fun i _ => h i, Finset.sum_empty⟩

variable [DecidableEq ι]

theorem sum_union {A : Finset ι} (hA : ∀ i ∉ A, w (f i) = 0) (B : Finset ι) :
    ∑ i ∈ A ∪ B, w (f i) = ∑ i ∈ A, w (f i) := by
  symm
  apply Finset.sum_subset Finset.subset_union_left
  intro i _ hi
  exact hA i hi

theorem unique (h : HasTotal w f t) (h' : HasTotal w f t') : t = t' := by
  obtain ⟨A, hA, rfl⟩ := h
  obtain ⟨B, hB, rfl⟩ := h'
  rw [← sum_union hA B, ← sum_union hB A, Finset.union_comm]

theorem split (h : HasTotal w f t) (i : ι) :
    ∃ rest, t = w (f i) + rest ∧ ∀ b, HasTotal w (Function.update f i b) (w b + rest) := by
  obtain ⟨A, hA, rfl⟩ := h
  refine ⟨∑ j ∈ (insert i A).erase i, w (f j), ?_, fun b => ⟨insert i A, fun j hj => ?_, ?_⟩⟩
  · rw [Finset.add_sum_erase _ (fun j => w (f j)) (Finset.mem_insert_self i A), Finset.insert_eq,
      Finset.union_comm]
    exact (sum_union hA {i}).symm
  · rw [Finset.mem_insert, not_or] at hj
    rw [Function.update_of_ne hj.1]
    exact hA j hj.2
  · rw [← Finset.add_sum_erase _ (fun j => w (Function.update f i b j))
      (Finset.mem_insert_self i A), Function.update_self]
    congr 1
    apply Finset.sum_congr rfl
    intro j hj
    rw [Function.update_of_ne (Finset.ne_of_mem_erase hj)]

theorem update_same (h : HasTotal w f t) {i : ι} {b : β} (hb : w b = w (f i)) :
    HasTotal w (Function.update f i b) t := by
  obtain ⟨rest, rfl, hrest⟩ := h.split i
  rw [← hb]
  exact hrest b

end HasTotal

theorem HasTotal.mem {α : Type*} {w : β → Multiset α} {t : Multiset α} (h : HasTotal w f t) {a : α}
    (ha : a ∈ t) : ∃ i, a ∈ w (f i) := by
  obtain ⟨A, -, rfl⟩ := h
  obtain ⟨i, -, hi⟩ := Multiset.mem_sum.1 ha
  exact ⟨i, hi⟩

end Nanonet
