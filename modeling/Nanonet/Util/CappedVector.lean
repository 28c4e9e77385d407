import Mathlib.Data.List.Basic
import Nanonet.Lib.Lts

/-!
# Capped vectors

`capped_vector` of `container-util.h`: an array of `max_size` elements with a fill level. The pushes
and pops are those of a list (`contents_exec`), and so is what `operator[]` and `front` read; but
`begin`, `end` and `at` are those of the whole array, so they belong to that list only where the
vector is full (`listLike_iff`).
-/

namespace Nanonet

/-- `capped_vector< T , max_size >`; the assertions keep the fill level within the array. -/
structure CappedVector (α : Type) (maxSize : Nat) where
  size_ : Nat
  v : Vector α maxSize
  size_le : size_ ≤ maxSize

namespace CappedVector

variable {α : Type} {maxSize : Nat}

/-- The constructor, with what the elements of the array are initialized to. -/
def construct (v : Vector α maxSize) : CappedVector α maxSize := ⟨0, v, Nat.zero_le _⟩

def size (s : CappedVector α maxSize) : Nat := s.size_

def capacity (_ : CappedVector α maxSize) : Nat := maxSize

def full (s : CappedVector α maxSize) : Bool := s.size ≥ s.capacity

def empty (s : CappedVector α maxSize) : Bool := s.size = 0

/-- `operator[]( i )`; `none` is a failed assertion. -/
def get (s : CappedVector α maxSize) (i : Nat) : Option α :=
  if i < s.size then s.v[i]? else none

/-- `at( i )`, that of the array; `none` is a `std::out_of_range`. -/
def at_ (s : CappedVector α maxSize) (i : Nat) : Option α := s.v[i]?

/-- `front()`; `none` is a failed assertion. -/
def front (s : CappedVector α maxSize) : Option α := if 0 < s.size then s.v[0]? else none

def begin_ (_ : CappedVector α maxSize) : Nat := 0

def end_ (_ : CappedVector α maxSize) : Nat := maxSize

/-- The elements from `begin()` to `end()`. -/
def range (s : CappedVector α maxSize) : List α :=
  (s.v.toList.drop s.begin_).take (s.end_ - s.begin_)

/-- `push_back( t )`; `none` is a failed assertion. -/
def pushBack (s : CappedVector α maxSize) (t : α) : Option (CappedVector α maxSize) :=
  if h : s.full then none
  else
    have hlt : s.size_ < maxSize := by simpa [full, size, capacity] using h
    some ⟨s.size_ + 1, s.v.set s.size_ t, hlt⟩

/-- `pop_back()`; `none` is a failed assertion. -/
def popBack (s : CappedVector α maxSize) : Option (CappedVector α maxSize) :=
  if s.empty then none
  else some ⟨s.size_ - 1, s.v, Nat.le_trans (Nat.sub_le _ _) s.size_le⟩

/-! ### The list of a capped vector -/

inductive Op (α : Type) where
  | pushBack (t : α)
  | popBack

def exec (s : CappedVector α maxSize) : Op α → Option (CappedVector α maxSize)
  | .pushBack t => s.pushBack t
  | .popBack => s.popBack

/-- The operation on a list of at most `maxSize` elements. -/
def listExec (maxSize : Nat) (l : List α) : Op α → Option (List α)
  | .pushBack t => if l.length < maxSize then some (l ++ [t]) else none
  | .popBack => if l = [] then none else some l.dropLast

/-- The elements up to the fill level. -/
def contents (s : CappedVector α maxSize) : List α := s.v.toList.take s.size_

@[simp] theorem length_contents (s : CappedVector α maxSize) : s.contents.length = s.size_ := by
  simp [contents, s.size_le]

theorem contents_eq_nil (s : CappedVector α maxSize) : s.contents = [] ↔ s.size_ = 0 := by
  rw [← List.length_eq_zero_iff, length_contents]

theorem contents_exec (s : CappedVector α maxSize) (op : Op α) :
    (s.exec op).map contents = listExec maxSize s.contents op := by
  cases op with
  | pushBack t =>
    by_cases hlt : s.size_ < maxSize
    · have hfull : s.full = false := by simpa [full, size, capacity] using hlt
      simp only [exec, pushBack, hfull, listExec, length_contents, if_pos hlt]
      simp only [Bool.false_eq_true, dite_false, Option.map_some, Option.some.injEq]
      rw [contents, Vector.toList_set, List.take_add_one, List.take_set_of_le (Nat.le_refl _),
        List.getElem?_set_self (by simpa using hlt)]
      rfl
    · have hfull : s.full = true := by simpa [full, size, capacity] using hlt
      simp [exec, pushBack, hfull, listExec, hlt]
  | popBack =>
    by_cases hzero : s.size_ = 0
    · simp [exec, popBack, empty, size, listExec, contents_eq_nil, hzero]
    · simp only [exec, popBack, empty, size, listExec, contents_eq_nil, hzero, decide_false,
        Bool.false_eq_true, if_false, Option.map_some, Option.some.injEq]
      have hle := s.size_le
      rw [List.dropLast_eq_take, length_contents, contents, contents, List.take_take,
        Nat.min_eq_left (Nat.sub_le _ _)]

theorem contents_run (ops : List (Op α)) (s : CappedVector α maxSize) :
    (ops.foldlM exec s).map contents = ops.foldlM (listExec maxSize) s.contents := by
  induction ops generalizing s with
  | nil => rfl
  | cons op ops ih =>
    rw [List.foldlM_cons, List.foldlM_cons, ← contents_exec s op]
    cases s.exec op with
    | none => rfl
    | some s' => exact ih s'

/-- What a container with these elements shows. -/
structure ListLike (s : CappedVector α maxSize) (l : List α) : Prop where
  size : s.size = l.length
  empty : s.empty = l.isEmpty
  full : s.full = true ↔ l.length = maxSize
  get : ∀ i, s.get i = l[i]?
  front : s.front = l.head?
  range : s.range = l
  at_throws : ∀ i, s.at_ i = none ↔ l.length ≤ i

theorem range_eq (s : CappedVector α maxSize) : s.range = s.v.toList := by
  rw [range, begin_, end_, List.drop_zero, Nat.sub_zero]
  exact List.take_of_length_le (by simp)

theorem get_eq (s : CappedVector α maxSize) (i : Nat) : s.get i = s.contents[i]? := by
  rw [contents, List.getElem?_take, Vector.getElem?_toList]
  rfl

theorem front_eq (s : CappedVector α maxSize) : s.front = s.contents.head? := by
  rw [List.head?_eq_getElem?, ← get_eq]
  rfl

theorem at_eq_none_iff (s : CappedVector α maxSize) (i : Nat) : s.at_ i = none ↔ maxSize ≤ i := by
  simp [at_]

theorem listLike_contents_iff (s : CappedVector α maxSize) :
    ListLike s s.contents ↔ s.contents.length = maxSize := by
  rw [length_contents]
  constructor
  · intro h
    have hrange := congrArg List.length h.range
    rw [range_eq, length_contents, Vector.length_toList] at hrange
    exact hrange.symm
  · intro hfull
    have hcontents : s.contents = s.v.toList := by
      rw [contents, hfull]
      exact List.take_of_length_le (by simp)
    constructor
    · exact (length_contents s).symm
    · rw [Bool.eq_iff_iff, List.isEmpty_iff, contents_eq_nil, empty, size, decide_eq_true_iff]
    · simp [full, size, capacity, hfull]
    · exact get_eq s
    · exact front_eq s
    · rw [range_eq, hcontents]
    · intro i
      rw [at_eq_none_iff, length_contents, hfull]

/-- **Capped vectors.** After every sequence of pushes and pops that a list of at most `maxSize`
elements admits, the vector agrees with the list in its size and in what `operator[]` and `front`
read; with the iterators and `at` it does iff it is full. -/
theorem listLike_iff (v : Vector α maxSize) (ops : List (Op α)) {l : List α}
    (h : ops.foldlM (listExec maxSize) [] = some l) :
    ∃ s, ops.foldlM exec (construct v) = some s ∧ s.size = l.length ∧ (s.empty ↔ l = []) ∧
      (s.full ↔ l.length = maxSize) ∧ (∀ i, s.get i = l[i]?) ∧ s.front = l.head? ∧
      (ListLike s l ↔ l.length = maxSize) := by
  have hrun : (ops.foldlM exec (construct v)).map contents = some l := by
    rw [contents_run, ← h]
    rfl
  obtain ⟨s, hs, rfl⟩ := Option.map_eq_some_iff.1 hrun
  refine ⟨s, hs, (length_contents s).symm, ?_, ?_, get_eq s, front_eq s, listLike_contents_iff s⟩
  · rw [contents_eq_nil, empty, size, decide_eq_true_iff]
  · have hle := s.size_le
    simp only [full, size, capacity, length_contents, ge_iff_le, decide_eq_true_iff]
    omega

theorem listLike_iff_two : ∃ s : CappedVector ℕ 2,
    [Op.pushBack 1, .pushBack 2, .popBack, .pushBack 3].foldlM exec (construct ⟨#[0, 0], rfl⟩) =
      some s ∧ ListLike s [1, 3] := by
  obtain ⟨s, hs, -, -, -, -, -, hlike⟩ := listLike_iff (⟨#[0, 0], rfl⟩ : Vector ℕ 2)
    [Op.pushBack 1, .pushBack 2, .popBack, .pushBack 3] (l := [1, 3]) rfl
  exact ⟨s, hs, hlike.2 rfl⟩

/-- A vector with one element and room for another shows two elements. -/
theorem one_of_two_not_listLike :
    ¬ ∃ s : CappedVector ℕ 2, [Op.pushBack 1].foldlM exec (construct ⟨#[0, 0], rfl⟩) = some s ∧
      ListLike s [1] := by
  rintro ⟨s, hs, hlike⟩
  cases hs
  cases hlike.range

end CappedVector

end Nanonet
