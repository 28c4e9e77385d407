import Nanonet.Base.Stream
import Nanonet.Lib.Double

/-!
# Iterators

`distance_at_least`, `safe_advance` and `check_strictly_ascending` of `container-util.h`. An iterator is
a position in a sequence, and each function has one implementation for random access iterators and
one that goes step by step. Both of `safe_advance` end at the same position (`safeAdvance_eq`). The
counting loop of `distance_at_least` never looks at a threshold before its first step, so an empty
range does not reach one that is not positive (`distanceAtLeast_decides_iff`), and the check of the
order throws where an element is not smaller only if it is greater or equal, which a NaN is not
(`checkStrictlyAscending_iff`).
-/

namespace Nanonet

/-- The tags of the iterator categories. -/
inductive IteratorCategory where
  | input | forward | bidirectional | randomAccess
  deriving DecidableEq

/-! ### Distances -/

/-- The loop of `distance_at_least` for input, forward and bidirectional iterators, with at most
`fuel` tests of its condition: what is returned, and where `i1` is then. -/
def distanceLoop (i2 : ℕ) (dist : ℤ) : ℕ → ℕ → ℤ → Option (Bool × ℕ)
  | 0, _, _ => none
  | fuel + 1, i1, d =>
    if i1 = i2 then some (false, i1)
    else if dist ≤ d + 1 then some (true, i1)
    else distanceLoop i2 dist fuel (i1 + 1) (d + 1)

/-- `distance_at_least( i1 , i2 , dist )`, by the category; the iterator is advanced in the loop
only. -/
def distanceAtLeast (category : IteratorCategory) (i1 i2 : ℕ) (dist : ℤ) : Option (Bool × ℕ) :=
  match category with
  | .randomAccess => some (decide (dist ≤ (i2 : ℤ) - i1), i1)
  | _ => distanceLoop i2 dist (i2 - i1 + 1) i1 0

theorem distanceLoop_spec {fuel i1 i2 : ℕ} {dist d : ℤ} (h : i1 ≤ i2) (hfuel : i2 - i1 < fuel) :
    ∃ r i, distanceLoop i2 dist fuel i1 d = some (r, i) ∧
      (r = true ↔ i1 < i2 ∧ dist ≤ d + (i2 - i1)) ∧ i ≤ i1 + (dist - d).toNat := by
  induction fuel generalizing i1 d with
  | zero => omega
  | succ fuel ih =>
    rw [distanceLoop]
    split_ifs with hend hdist
    · exact ⟨false, i1, rfl, by simp [hend], by omega⟩
    · exact ⟨true, i1, rfl, iff_of_true rfl (by omega), by omega⟩
    · obtain ⟨r, i, hloop, hr, hi⟩ := ih (d := d + 1) (by omega : i1 + 1 ≤ i2) (by omega)
      refine ⟨r, i, hloop, hr.trans ?_, by omega⟩
      push_cast
      omega

/-- The call returns whether the distance is at least `dist`, after no more steps than that. -/
def DecidesDistance (i1 i2 : ℕ) (dist : ℤ) (o : Option (Bool × ℕ)) : Prop :=
  ∃ r i, o = some (r, i) ∧ (r = true ↔ dist ≤ (i2 : ℤ) - i1) ∧ i ≤ i1 + dist.toNat

theorem decidesDistance_random (i1 i2 : ℕ) (dist : ℤ) :
    DecidesDistance i1 i2 dist (distanceAtLeast .randomAccess i1 i2 dist) :=
  ⟨_, i1, rfl, decide_eq_true_iff, Nat.le_add_right _ _⟩

theorem decidesDistance_step_iff {category : IteratorCategory} (hc : category ≠ .randomAccess)
    {i1 i2 : ℕ} (h : i1 ≤ i2) (dist : ℤ) :
    DecidesDistance i1 i2 dist (distanceAtLeast category i1 i2 dist) ↔ 0 < dist ∨ i1 < i2 := by
  have hloop : distanceAtLeast category i1 i2 dist = distanceLoop i2 dist (i2 - i1 + 1) i1 0 := by
    cases category with
    | randomAccess => exact absurd rfl hc
    | input => rfl
    | forward => rfl
    | bidirectional => rfl
  obtain ⟨r, i, hspec, hr, hi⟩ :=
    @distanceLoop_spec _ i1 i2 dist 0 h (Nat.lt_succ_self (i2 - i1))
  rw [hloop, DecidesDistance]
  rw [zero_add] at hr
  rw [sub_zero] at hi
  constructor
  · rintro ⟨r', i', hspec', hr', -⟩
    rw [hspec, Option.some.injEq, Prod.mk.injEq] at hspec'
    obtain ⟨rfl, rfl⟩ := hspec'
    by_contra hnot
    rw [hr'] at hr
    omega
  · intro hreach
    refine ⟨r, i, hspec, hr.trans ?_, hi⟩
    omega

/-- **Both implementations agree** where a step is needed or can be taken. -/
theorem distanceAtLeast_decides_iff {i1 i2 : ℕ} (h : i1 ≤ i2) (dist : ℤ) :
    ((∀ category, DecidesDistance i1 i2 dist (distanceAtLeast category i1 i2 dist)) ↔
      0 < dist ∨ i1 < i2) ∧
    DecidesDistance i1 i2 dist (distanceAtLeast .randomAccess i1 i2 dist) := by
  refine ⟨⟨fun hall => ?_, fun hreach category => ?_⟩, decidesDistance_random i1 i2 dist⟩
  · exact (decidesDistance_step_iff (by decide) h dist).1 (hall .forward)
  · by_cases hc : category = .randomAccess
    · rw [hc]
      exact decidesDistance_random i1 i2 dist
    · exact (decidesDistance_step_iff hc h dist).2 hreach

/-- Three elements are at least two apart from their end. -/
theorem distanceAtLeast_decides_three :
    DecidesDistance 0 3 2 (distanceAtLeast .forward 0 3 2) ∧
      DecidesDistance 0 3 2 (distanceAtLeast .randomAccess 0 3 2) := by
  obtain ⟨hall, hrandom⟩ := distanceAtLeast_decides_iff (by decide : 0 ≤ 3) 2
  exact ⟨hall.2 (.inl (by decide)) .forward, hrandom⟩

/-- The distance of an empty range is at least zero. -/
theorem distanceAtLeast_empty :
    ¬ DecidesDistance 0 0 0 (distanceAtLeast .forward 0 0 0) ∧
      distanceAtLeast .forward 0 0 0 = some (false, 0) ∧
      distanceAtLeast .randomAccess 0 0 0 = some (true, 0) := by
  have hfalse : distanceAtLeast .forward 0 0 0 = some (false, 0) := by decide
  refine ⟨?_, hfalse, by decide⟩
  rintro ⟨r, i, hr, hiff, -⟩
  rw [hfalse] at hr
  cases hr
  exact absurd (hiff.2 (by decide)) (by decide)

/-! ### Advancing -/

/-- The categories of iterators that can be read more than once. -/
inductive ForwardCategory where
  | forward | bidirectional | randomAccess
  deriving DecidableEq

/-- `safe_advance( i , end , d , random_access_iterator_tag )` -/
def safeAdvanceRandom (i end_ d : ℕ) : Evaluated ℕ := do
  let distance := (end_ : ℤ) - i
  alwaysAssert (0 ≤ distance) "std::distance( i , end ) >= 0"
  pure (if d < distance.toNat then i + d else end_)

/-- The loop of `safe_advance( i , end , d , forward_iterator_tag )`, with `d` steps to go. -/
def advanceLoop (end_ : ℕ) : ℕ → ℕ → ℕ
  | 0, i => i
  | d + 1, i => if i ≠ end_ then advanceLoop end_ d (i + 1) else i

def safeAdvance (category : ForwardCategory) (i end_ d : ℕ) : Evaluated ℕ := do
  alwaysAssert (1 ≤ d) "d >= 1"
  match category with
  | .randomAccess => safeAdvanceRandom i end_ d
  | _ => pure (advanceLoop end_ d i)

theorem advanceLoop_eq {end_ i : ℕ} (d : ℕ) (h : i ≤ end_) :
    advanceLoop end_ d i = min (i + d) end_ := by
  induction d generalizing i with
  | zero => rw [advanceLoop, Nat.add_zero, min_eq_left h]
  | succ d ih =>
    rw [advanceLoop]
    split_ifs with hend
    · rw [ih (by omega)]
      omega
    · omega

theorem safeAdvance_eq (category : ForwardCategory) {i end_ d : ℕ} (h : i ≤ end_) (hd : 1 ≤ d) :
    safeAdvance category i end_ d = .returned (min (i + d) end_) := by
  have hloop := advanceLoop_eq d h
  unfold safeAdvance
  rw [alwaysAssert_of hd, Evaluated.returned_bind]
  cases category with
  | randomAccess =>
    change safeAdvanceRandom i end_ d = _
    unfold safeAdvanceRandom
    dsimp only
    rw [alwaysAssert_of (by omega), Evaluated.returned_bind]
    refine congrArg Evaluated.returned ?_
    split_ifs
    · omega
    · omega
  | forward => exact congrArg Evaluated.returned hloop
  | bidirectional => exact congrArg Evaluated.returned hloop

/-! ### The order of a sequence -/

section order

variable {α : Type} [LE α] [DecidableLE α]

/-- The loop of `check_strictly_ascending`, with at most `fuel` tests of its condition; reading at the
end is undefined. -/
def checkLoop (category : ForwardCategory) (xs : List α) (d : ℕ) : ℕ → ℕ → Evaluated Unit
  | 0, _ => .thrown .outOfFuel
  | fuel + 1, i => do
    let j ← safeAdvance category i xs.length d
    if j = xs.length then pure ()
    else
      match xs[i]?, xs[j]? with
      | some a, some b =>
        if b ≤ a then .thrown (.runtimeError "sequence not strictly ascending")
        else checkLoop category xs d fuel j
      | _, _ => .undefined

/-- `check_strictly_ascending( begin , end , d )` of a sequence. -/
def checkStrictlyAscending (category : ForwardCategory) (xs : List α) (d : ℕ) : Evaluated Unit :=
  if xs.length = 0 then pure () else checkLoop category xs d xs.length 0

/-- `r` holds between the elements at `k` and `k + 1` strides, from `k` on. -/
def Strided (r : α → α → Prop) (xs : List α) (d k : ℕ) : Prop :=
  ∀ l, k ≤ l → ∀ a b, xs[l * d]? = some a → xs[(l + 1) * d]? = some b → r a b

omit [LE α] [DecidableLE α] in
theorem strided_succ {r : α → α → Prop} {xs : List α} {d k : ℕ} {a b : α}
    (ha : xs[k * d]? = some a) (hb : xs[(k + 1) * d]? = some b) :
    Strided r xs d k ↔ r a b ∧ Strided r xs d (k + 1) := by
  constructor
  · exact fun h => ⟨h k le_rfl a b ha hb, fun l hl => h l (by omega)⟩
  · rintro ⟨hab, h⟩ l hl a' b' ha' hb'
    rcases hl.eq_or_lt with rfl | hlt
    · rw [ha, Option.some.injEq] at ha'
      rw [hb, Option.some.injEq] at hb'
      rwa [← ha', ← hb']
    · exact h l hlt a' b' ha' hb'

omit [LE α] [DecidableLE α] in
theorem strided_end {r : α → α → Prop} {xs : List α} {d k : ℕ} (h : xs.length ≤ (k + 1) * d) :
    Strided r xs d k := by
  intro l hl a b _ hb
  have hmul : (k + 1) * d ≤ (l + 1) * d := Nat.mul_le_mul_right d (by omega)
  rw [List.getElem?_eq_none (by omega)] at hb
  cases hb

theorem checkLoop_spec (category : ForwardCategory) {xs : List α} {d : ℕ} (hd : 1 ≤ d) {fuel k : ℕ}
    (hk : k * d < xs.length) (hfuel : xs.length ≤ k * d + fuel) :
    (Strided (fun a b => ¬ b ≤ a) xs d k → checkLoop category xs d fuel (k * d) = .returned ()) ∧
    (¬ Strided (fun a b => ¬ b ≤ a) xs d k → checkLoop category xs d fuel (k * d) =
      .thrown (.runtimeError "sequence not strictly ascending")) := by
  induction fuel generalizing k with
  | zero => omega
  | succ fuel ih =>
    have hsucc : (k + 1) * d = k * d + d := Nat.succ_mul k d
    rw [checkLoop, safeAdvance_eq category hk.le hd, Evaluated.returned_bind, ← hsucc]
    rcases Nat.lt_or_ge ((k + 1) * d) xs.length with hlt | hge
    · rw [min_eq_left hlt.le, if_neg hlt.ne, List.getElem?_eq_getElem hk,
        List.getElem?_eq_getElem hlt]
      dsimp only
      rw [strided_succ (List.getElem?_eq_getElem hk) (List.getElem?_eq_getElem hlt)]
      split_ifs with hle
      · exact ⟨fun h => absurd hle h.1, fun _ => rfl⟩
      · obtain ⟨hasc, hdesc⟩ := ih hlt (by omega)
        exact ⟨fun h => hasc h.2, fun h => hdesc fun hrest => h ⟨hle, hrest⟩⟩
    · rw [min_eq_right hge, if_pos rfl]
      exact ⟨fun _ => rfl, fun h => absurd (strided_end hge) h⟩

theorem checkStrictlyAscending_spec (category : ForwardCategory) (xs : List α) {d : ℕ}
    (hd : 1 ≤ d) :
    (Strided (fun a b => ¬ b ≤ a) xs d 0 → checkStrictlyAscending category xs d = .returned ()) ∧
    (¬ Strided (fun a b => ¬ b ≤ a) xs d 0 → checkStrictlyAscending category xs d =
      .thrown (.runtimeError "sequence not strictly ascending")) := by
  unfold checkStrictlyAscending
  split_ifs with hempty
  · exact ⟨fun _ => rfl, fun h => absurd (strided_end (by omega)) h⟩
  · have hfuel : xs.length ≤ 0 * d + xs.length := Nat.le_add_left _ _
    have hloop := checkLoop_spec category hd (by omega) hfuel
    rwa [Nat.zero_mul] at hloop

end order

/-! ### Sequences of doubles -/

/-- What the check of the order promises: it returns for an ascending sequence, throws for any other
one, and takes each step to the position that is `d` further or to the end. -/
structure OrderChecked (category : ForwardCategory) (xs : List Double) (d : ℕ) : Prop where
  returns_iff : checkStrictlyAscending category xs d = .returned () ↔ Strided (· < ·) xs d 0
  throws : ¬ Strided (· < ·) xs d 0 → ∃ e, checkStrictlyAscending category xs d = .thrown e ∧
    e.IsRuntime
  advanced : ∀ i, i ≤ xs.length → safeAdvance category i xs.length d =
    .returned (min (i + d) xs.length)

/-- Some pair of the stride descends, or no pair has a NaN in it. -/
def Comparable (xs : List Double) (d : ℕ) : Prop :=
  (∃ k a b, xs[k * d]? = some a ∧ xs[(k + 1) * d]? = some b ∧ b ≤ a) ∨
    ∀ k a b, xs[k * d]? = some a → xs[(k + 1) * d]? = some b → a.value ≠ none ∧ b.value ≠ none

theorem Double.lt_iff_not_le {a b : Double} :
    a < b ↔ ¬ b ≤ a ∧ a.value ≠ none ∧ b.value ≠ none := by
  constructor
  · rintro hlt
    have hnot : ¬ b ≤ a := fun hle => Double.not_lt_of_le hle hlt
    obtain ⟨u, hu, v, hv, -⟩ := hlt
    exact ⟨hnot, Option.ne_none_iff_exists'.2 ⟨u, hu⟩, Option.ne_none_iff_exists'.2 ⟨v, hv⟩⟩
  · rintro ⟨hnot, ha, hb⟩
    obtain ⟨u, hu⟩ := Option.ne_none_iff_exists'.1 ha
    obtain ⟨v, hv⟩ := Option.ne_none_iff_exists'.1 hb
    refine ⟨u, hu, v, hv, ?_⟩
    by_contra hge
    exact hnot ⟨v, hv, u, hu, not_lt.1 hge⟩

theorem comparable_iff {xs : List Double} {d : ℕ} :
    Comparable xs d ↔
      (Strided (fun a b => ¬ b ≤ a) xs d 0 → Strided (· < ·) xs d 0) := by
  constructor
  · rintro (⟨k, a, b, ha, hb, hle⟩ | hvalue) hnot k' hk' a' b' ha' hb'
    · exact absurd hle (hnot k k.zero_le a b ha hb)
    · exact Double.lt_iff_not_le.2 ⟨hnot k' hk' a' b' ha' hb', hvalue k' a' b' ha' hb'⟩
  · intro himp
    by_cases hnot : Strided (fun a b => ¬ b ≤ a) xs d 0
    · refine .inr fun k a b ha hb => ?_
      exact (Double.lt_iff_not_le.1 (himp hnot k k.zero_le a b ha hb)).2
    · simp only [Strided, not_forall, not_not] at hnot
      obtain ⟨k, -, a, b, ha, hb, hle⟩ := hnot
      exact .inl ⟨k, a, b, ha, hb, hle⟩

theorem Strided.not_le {xs : List Double} {d k : ℕ} (h : Strided (· < ·) xs d k) :
    Strided (fun a b => ¬ b ≤ a) xs d k :=
  fun l hl a b ha hb => (Double.lt_iff_not_le.1 (h l hl a b ha hb)).1

/-- **The check decides the order** where the code can tell that it is broken; it always comes to an
end without reading there. -/
theorem checkStrictlyAscending_iff (category : ForwardCategory) (xs : List Double) {d : ℕ}
    (hd : 1 ≤ d) :
    (OrderChecked category xs d ↔ Comparable xs d) ∧
    (checkStrictlyAscending category xs d = .returned () ∨
      ∃ e, checkStrictlyAscending category xs d = .thrown e ∧ e.IsRuntime) := by
  obtain ⟨hreturns, hthrows⟩ := checkStrictlyAscending_spec category xs hd
  rw [comparable_iff]
  refine ⟨⟨fun hchecked hnot => hchecked.returns_iff.1 (hreturns hnot), fun himp => ?_⟩, ?_⟩
  · refine ⟨⟨fun h => ?_, fun h => hreturns h.not_le⟩, fun h => ?_,
      fun i hi => safeAdvance_eq category hi hd⟩
    · by_contra hlt
      rw [hthrows fun hnot => hlt (himp hnot)] at h
      cases h
    · exact ⟨_, hthrows fun hnot => h (himp hnot), _, rfl⟩
  · by_cases hnot : Strided (fun a b => ¬ b ≤ a) xs d 0
    · exact .inl (hreturns hnot)
    · exact .inr ⟨_, hthrows hnot, _, rfl⟩

/-- Two numbers can be compared. -/
theorem checkStrictlyAscending_two : OrderChecked .forward [.ofInt 1, .ofInt 2] 1 := by
  refine (checkStrictlyAscending_iff .forward [.ofInt 1, .ofInt 2] (by decide : 1 ≤ 1)).1.2
    (.inr fun k a b ha hb => ?_)
  have hvalue : ∀ x ∈ [Double.ofInt 1, Double.ofInt 2], x.value ≠ none := by
    intro x hx
    rcases List.mem_pair.1 hx with rfl | rfl
    · exact Double.value_ofRat_ne_none _
    · exact Double.value_ofRat_ne_none _
  exact ⟨hvalue a (List.mem_of_getElem? ha), hvalue b (List.mem_of_getElem? hb)⟩

/-- A NaN is not smaller than the number before it, and the check returns. -/
theorem checkStrictlyAscending_nan :
    ¬ OrderChecked .forward [.ofInt 1, .nan] 1 ∧
      checkStrictlyAscending .forward [Double.ofInt 1, Double.nan] 1 = .returned () ∧
      ¬ Strided (· < ·) [Double.ofInt 1, Double.nan] 1 0 := by
  have hnan : Double.nan.value = none := by decide
  have hnot : ¬ Strided (· < ·) [Double.ofInt 1, Double.nan] 1 0 := by
    intro h
    obtain ⟨u, -, v, hv, -⟩ := h 0 le_rfl (.ofInt 1) .nan rfl rfl
    rw [hnan] at hv
    cases hv
  have hreturns :
      checkStrictlyAscending .forward [Double.ofInt 1, Double.nan] 1 = .returned () := by
    refine (checkStrictlyAscending_spec .forward _ le_rfl).1 ?_
    rintro l - a b - hb ⟨u, hu, -⟩
    cases l with
    | zero =>
      obtain rfl : Double.nan = b := by simpa using hb
      rw [hnan] at hu
      cases hu
    | succ l => simp at hb
  exact ⟨fun h => hnot (h.returns_iff.1 hreturns), hreturns, hnot⟩

end Nanonet
