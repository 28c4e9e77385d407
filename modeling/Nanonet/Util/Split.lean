import Mathlib.Logic.Function.Iterate
import Nanonet.Base.Stream

/-!
# Splitting a string

`splitter` of `util.h` and the two `split` functions of `util.h` and `util.cpp`. The loop over
`get_next` computes `List.splitOn` (`splitLoop_eq`), for empty strings and for separators at either
end as well: after the last separator `position_` is `end_`, and only `exhausted_` tells whether the
empty piece there has been returned.
-/

namespace Nanonet

/-- `struct splitter`; `position_` is the text from there to `end_`. -/
structure Splitter where
  position_ : Text
  separator_ : Char
  exhausted_ : Bool
  deriving DecidableEq, Repr

namespace Splitter

def ofText (str : Text) (separator : Char) : Splitter := ⟨str, separator, false⟩

/-- `get_next`; `none` when it returns `false` and leaves its argument alone. -/
def getNext (s : Splitter) : Option Text × Splitter :=
  if s.exhausted_ then (none, s)
  else
    let result := s.position_.takeWhile (· != s.separator_)
    match s.position_.dropWhile (· != s.separator_) with
    | [] => (some result, { s with exhausted_ := true })
    | _ :: rest => (some result, { s with position_ := rest })

def afterNext (s : Splitter) : Splitter := s.getNext.2

def todo (s : Splitter) : ℕ := if s.exhausted_ then 0 else s.position_.length + 1

theorem getNext_exhausted {s : Splitter} (h : s.exhausted_ = true) : s.getNext = (none, s) := by
  rw [getNext, if_pos h]

theorem getNext_last {s : Splitter} (h : s.exhausted_ = false) (hsep : s.separator_ ∉ s.position_) :
    s.getNext = (some s.position_, { s with exhausted_ := true }) := by
  have hall : ∀ c ∈ s.position_, (c != s.separator_) = true :=
    fun c hc => by simpa using ne_of_mem_of_not_mem hc hsep
  rw [getNext, if_neg (by simp [h]), List.takeWhile_eq_self_iff.2 hall,
    List.dropWhile_eq_nil_iff.2 hall]

theorem getNext_piece {s : Splitter} {piece rest : Text} (h : s.exhausted_ = false)
    (hpos : s.position_ = piece ++ s.separator_ :: rest) (hsep : s.separator_ ∉ piece) :
    s.getNext = (some piece, { s with position_ := rest }) := by
  have hall : ∀ c ∈ piece, (c != s.separator_) = true :=
    fun c hc => by simpa using ne_of_mem_of_not_mem hc hsep
  rw [getNext, if_neg (by simp [h]), hpos, List.takeWhile_append_of_pos hall,
    List.dropWhile_append_of_pos hall]
  simp

theorem getNext_cases (s : Splitter) :
    (s.exhausted_ = true ∧ s.getNext = (none, s)) ∨
    (s.exhausted_ = false ∧ s.separator_ ∉ s.position_ ∧
      s.getNext = (some s.position_, { s with exhausted_ := true })) ∨
    (s.exhausted_ = false ∧ ∃ piece rest, s.position_ = piece ++ s.separator_ :: rest ∧
      s.separator_ ∉ piece ∧ s.getNext = (some piece, { s with position_ := rest })) := by
  obtain h | h := Bool.eq_false_or_eq_true s.exhausted_
  · exact .inl ⟨h, getNext_exhausted h⟩
  · right
    by_cases hsep : s.separator_ ∈ s.position_
    · obtain ⟨piece, rest, hpos, hpiece⟩ := List.eq_append_cons_of_mem hsep
      exact .inr ⟨h, piece, rest, hpos, hpiece, getNext_piece h hpos hpiece⟩
    · exact .inl ⟨h, hsep, getNext_last h hsep⟩

theorem todo_lt {s s' : Splitter} {piece : Text} (h : s.getNext = (some piece, s')) :
    s'.todo < s.todo := by
  obtain ⟨-, heq⟩ | ⟨he, -, heq⟩ | ⟨he, part, rest, hpos, -, heq⟩ := s.getNext_cases
  · simp [heq] at h
  · obtain rfl : _ = s' := congrArg Prod.snd (heq.symm.trans h)
    simp [todo, he]
  · obtain rfl : _ = s' := congrArg Prod.snd (heq.symm.trans h)
    simp only [todo, he, hpos, List.length_append, List.length_cons, Bool.false_eq_true, if_false]
    omega

theorem exhausted_of_none {s : Splitter} (h : s.getNext.1 = none) : s.exhausted_ = true := by
  obtain ⟨he, -⟩ | ⟨-, -, heq⟩ | ⟨-, part, rest, -, -, heq⟩ := s.getNext_cases
  · exact he
  · simp [heq] at h
  · simp [heq] at h

theorem getNext_afterNext_iterate {s : Splitter} (h : s.getNext.1 = none) (n : ℕ) :
    (afterNext^[n] s).getNext.1 = none := by
  have hfixed : afterNext s = s := by
    rw [afterNext, getNext_exhausted (exhausted_of_none h)]
  rwa [Function.iterate_fixed hfixed]

end Splitter

/-- `while (s.get_next(back)) { .. }`. -/
def splitLoop (s : Splitter) (ret : List Text) : List Text :=
  match _h : s.getNext with
  | (none, _) => ret
  | (some back, s') => splitLoop s' (ret ++ [back])
termination_by s.todo
decreasing_by exact Splitter.todo_lt _h

def split (str : Text) (sep : Char) : List Text := splitLoop (.ofText str sep) []

/-- The parts between any of the separators, with an empty one between two adjacent ones. -/
def splitAtAnyOf (s separators : Text) : List Text := s.splitOnP fun c => separators.contains c

/-- What `boost::algorithm::split` is documented to do with `is_any_of`. -/
def SplitsAtAnyOf (split : Text → Text → List Text) : Prop :=
  ∀ s separators, split s separators = splitAtAnyOf s separators

theorem splitsAtAnyOf_splitAtAnyOf : SplitsAtAnyOf splitAtAnyOf := fun _ _ => rfl

/-- `split( seq, s, separators )`: what ends up in `seq`. The separators are a C string, and
`boostSplit` is `boost::algorithm::split` with `is_any_of`. -/
def splitSequence (boostSplit : Text → Text → List Text) (s separators : Text) : List Text :=
  boostSplit s (cString separators)

/-! ### The loop and `List.splitOn` -/

/-- The pieces that are still to come. -/
def Splitter.pieces (s : Splitter) : List Text :=
  if s.exhausted_ then [] else s.position_.splitOn s.separator_

theorem splitLoop_eq (s : Splitter) (ret : List Text) : splitLoop s ret = ret ++ s.pieces := by
  induction s, ret using splitLoop.induct with
  | case1 s ret s' h =>
    have he : s.exhausted_ = true := Splitter.exhausted_of_none (by rw [h])
    rw [splitLoop, h, Splitter.pieces, if_pos he, List.append_nil]
  | case2 s ret piece s' h ih =>
    rw [splitLoop, h]
    show splitLoop s' (ret ++ [piece]) = _
    rw [ih, List.append_assoc]
    congr 1
    obtain ⟨-, heq⟩ | ⟨he, hsep, heq⟩ | ⟨he, part, rest, hpos, hsep, heq⟩ := s.getNext_cases
    · simp [heq] at h
    · obtain ⟨rfl, rfl⟩ : s.position_ = piece ∧ _ = s' := by simpa [heq] using h
      simp [Splitter.pieces, he, List.splitOn_eq_singleton hsep]
    · obtain ⟨rfl, rfl⟩ : part = piece ∧ _ = s' := by simpa [heq] using h
      simp [Splitter.pieces, he, hpos, List.splitOn_append_cons_self_of_not_mem hsep]

theorem split_eq_splitOn (s : Text) (c : Char) : split s c = s.splitOn c := by
  rw [split, splitLoop_eq, List.nil_append, Splitter.pieces]
  rfl

theorem length_splitOn (s : Text) (c : Char) : (s.splitOn c).length = s.count c + 1 := by
  induction s with
  | nil => simp
  | cons x s ih =>
    rw [List.splitOn_cons_eq_if_modifyHead, List.count_cons]
    split_ifs <;> simp [ih]

theorem notMem_of_mem_splitOn {s piece : Text} {c : Char} (h : piece ∈ s.splitOn c) :
    c ∉ piece := by
  induction s generalizing piece with
  | nil => simp_all
  | cons x s ih =>
    obtain ⟨p, ps, hps⟩ := List.exists_cons_of_ne_nil (List.splitOn_ne_nil c s)
    rw [List.splitOn_cons_eq_if_modifyHead] at h
    split_ifs at h with hx
    · rcases List.mem_cons.1 h with rfl | h
      · exact List.not_mem_nil
      · exact ih h
    · rw [hps] at ih h
      rcases List.mem_cons.1 h with rfl | h
      · have hp : c ∉ p := ih List.mem_cons_self
        simpa [hp] using fun hc : c = x => hx (by simp [hc])
      · exact ih (List.mem_cons_of_mem _ h)

theorem split_intercalate_iff {pieces : List Text} (hne : pieces ≠ []) (c : Char) :
    split ([c].intercalate pieces) c = pieces ↔ ∀ piece ∈ pieces, c ∉ piece := by
  rw [split_eq_splitOn]
  constructor
  · intro h piece hpiece
    rw [← h] at hpiece
    exact notMem_of_mem_splitOn hpiece
  · exact fun h => List.splitOn_intercalate c h hne

theorem cut_injective {s t rest rest' : Text} {c : Char} (hs : c ∉ s) (ht : c ∉ t)
    (h : s ++ c :: rest = t ++ c :: rest') : s = t ∧ rest = rest' := by
  induction s generalizing t with
  | nil =>
    cases t with
    | nil => exact ⟨rfl, (List.cons.inj h).2⟩
    | cons y t =>
      obtain ⟨rfl, -⟩ := List.cons.inj h
      exact absurd List.mem_cons_self ht
  | cons x s ih =>
    cases t with
    | nil =>
      obtain ⟨rfl, -⟩ := List.cons.inj h
      exact absurd List.mem_cons_self hs
    | cons y t =>
      obtain ⟨rfl, hrest⟩ := List.cons.inj h
      obtain ⟨rfl, heq⟩ :=
        ih (List.not_mem_of_not_mem_cons hs) (List.not_mem_of_not_mem_cons ht) hrest
      exact ⟨rfl, heq⟩

theorem splitSequence_singleton {boostSplit : Text → Text → List Text}
    (hboost : SplitsAtAnyOf boostSplit) (s : Text) {c : Char} (hc : c ≠ '\x00') :
    splitSequence boostSplit s [c] = s.splitOn c := by
  rw [splitSequence, cString_eq_self (by simpa using hc.symm), hboost, splitAtAnyOf,
    List.splitOn_eq_splitOnP]
  congr 1
  funext x
  simp [Bool.beq_eq_decide_eq]

/-- Splitting is the inverse of joining, once exhausted a splitter stays so, and both
implementations agree. -/
theorem split_inverse {boostSplit : Text → Text → List Text} (hboost : SplitsAtAnyOf boostSplit)
    (s : Text) (c : Char) :
    (split s c).length = s.count c + 1 ∧
      (∀ piece ∈ split s c, c ∉ piece) ∧
      [c].intercalate (split s c) = s ∧
      (∀ pieces : List Text, pieces ≠ [] → (∀ piece ∈ pieces, c ∉ piece) →
        split ([c].intercalate pieces) c = pieces) ∧
      (∀ sp : Splitter, sp.getNext.1 = none → ∀ n, (Splitter.afterNext^[n] sp).getNext.1 = none) ∧
      (c ≠ '\x00' → splitSequence boostSplit s [c] = split s c) := by
  simp only [split_eq_splitOn]
  refine ⟨length_splitOn s c, fun _ => notMem_of_mem_splitOn, List.intercalate_splitOn c, ?_,
    fun _ => Splitter.getNext_afterNext_iterate, splitSequence_singleton hboost s⟩
  intro pieces hne hpieces
  rw [← split_eq_splitOn]
  exact (split_intercalate_iff hne c).2 hpieces

theorem split_inverse_commas :
    SplitsAtAnyOf splitAtAnyOf ∧ split [',', ' ', ','] ',' = [[], [' '], []] := by
  refine ⟨splitsAtAnyOf_splitAtAnyOf, ?_⟩
  exact (split_inverse splitsAtAnyOf_splitAtAnyOf [] ',').2.2.2.1 [[], [' '], []] (by simp) (by simp)

end Nanonet
