import Mathlib.Data.List.ReduceOption

/-!
# A stream of elements and end markers

A producer that shuts its consumers down through the queue that feeds them writes `none` behind the
last element, once for every consumer. What a reader of such a stream may conclude from the markers
it has seen, for a stream that was split into what was read, `xs`, and what is left, `ys`.
-/

namespace Nanonet

variable {α : Type*}

def markers (l : List (Option α)) : Nat := l.countP Option.isNone

@[simp] theorem markers_nil : markers ([] : List (Option α)) = 0 := rfl

@[simp] theorem markers_append (l l' : List (Option α)) :
    markers (l ++ l') = markers l + markers l' := List.countP_append

@[simp] theorem markers_cons_none (l : List (Option α)) : markers (none :: l) = markers l + 1 :=
  List.countP_cons_of_pos rfl

@[simp] theorem markers_cons_some (a : α) (l : List (Option α)) :
    markers (some a :: l) = markers l := List.countP_cons_of_neg (by simp)

theorem none_mem_of_markers_pos {l : List (Option α)} (h : 0 < markers l) : none ∈ l := by
  obtain ⟨a, ha, hnone⟩ := List.countP_pos_iff.1 h
  rwa [Option.isNone_iff_eq_none.1 hnone] at ha

theorem not_mem_of_markers_eq_zero {l : List (Option α)} (h : markers l = 0) : none ∉ l := by
  intro hmem
  have hpos : 0 < markers l := List.countP_pos_iff.2 ⟨none, hmem, rfl⟩
  omega

/-- Behind a marker that was read there is no element, when all elements were written before all
markers. -/
theorem some_not_mem_of_none_mem {xs ys : List (Option α)} {ts : List α} {k : Nat}
    (h : xs ++ ys = ts.map some ++ List.replicate k none) (hread : none ∈ xs) (t : α) :
    some t ∉ ys := by
  intro ht
  obtain ⟨zs, htasks, -⟩ | ⟨zs, -, hmarkers⟩ := List.append_eq_append_iff.1 h
  · have hmem : none ∈ ts.map some := by
      rw [htasks]
      exact List.mem_append_left zs hread
    simp at hmem
  · have hmem : some t ∈ List.replicate k none := by
      rw [hmarkers]
      exact List.mem_append_right zs ht
    simp at hmem

/-- Nothing is left once all markers were read, when the last thing written is a marker. -/
theorem eq_nil_of_markers_eq_zero {xs ys : List (Option α)}
    (hlast : ∀ e ∈ (xs ++ ys).getLast?, e = none) (hzero : markers ys = 0) : ys = [] := by
  by_contra hne
  have hmem : ys.getLast hne ∈ (xs ++ ys).getLast? := by
    rw [List.getLast?_append_of_ne_nil xs hne, List.getLast?_eq_some_getLast hne]
    rfl
  have hnone := hlast _ hmem
  exact not_mem_of_markers_eq_zero hzero (hnone ▸ List.getLast_mem hne)

end Nanonet
