import Nanonet.Base.Stream
import Nanonet.Lib.DoubleArithmetic

/-!
# Rounding to an integer type

`round_to_integer` of `math-util.h` at every signed type. The check before `llround` compares with
the limits converted to `double`, and the one of 64 bits is rounded up to `2 ^ 63`, which passes; a NaN
passes both comparisons. `llround` has no specified result on either, and everything else is rounded
or too large (`roundToInteger_exact_iff`).
-/

namespace Nanonet

open Double

inductive SignedInteger where
  | int8 | int16 | int32 | int64
  deriving DecidableEq

namespace SignedInteger

def bits : SignedInteger → ℕ
  | int8 => 8
  | int16 => 16
  | int32 => 32
  | int64 => 64

/-- `std::numeric_limits< INTEGER >::min()` -/
def min (I : SignedInteger) : ℤ := -2 ^ (I.bits - 1)

/-- `std::numeric_limits< INTEGER >::max()` -/
def max (I : SignedInteger) : ℤ := 2 ^ (I.bits - 1) - 1

/-- The largest value as a `double`. -/
def maxDouble : SignedInteger → ℤ
  | int64 => 2 ^ 63
  | I => I.max

theorem value_min (I : SignedInteger) : (ofInt I.min).value = some (Extended.ofRat I.min) := by
  cases I <;> decide +kernel

theorem value_max (I : SignedInteger) : (ofInt I.max).value = some (Extended.ofRat I.maxDouble) := by
  cases I <;> decide +kernel

end SignedInteger

def tooLarge (x : Double) : Evaluated ℤ :=
  .thrown (.runtimeError ("value too large to round to integer: " ++ x.fixedText))

/-- `round_to_integer< INTEGER >( x )`; `undefined` is a call of `llround` without a specified
result. -/
def roundToInteger (I : SignedInteger) (x : Double) : Evaluated ℤ :=
  let d := x.round
  if d < ofInt I.min ∨ ofInt I.max < d then tooLarge x
  else
    match x.llround with
    | none => .undefined
    | some i => if i.toInt < I.min ∨ I.max < i.toInt then tooLarge x else .returned i.toInt

/-- The call rounds to the nearest integer if the type has it and throws otherwise, and `llround` is
called only where its result is specified. -/
structure RoundsOrThrows (I : SignedInteger) (x : Double) (o : Evaluated ℤ) : Prop where
  specified : o ≠ .undefined
  returns : ∀ n, o = .returned n ↔
    ∃ q : ℚ, x.value = some (Extended.ofRat q) ∧ n = roundHalfAway q ∧ I.min ≤ n ∧ n ≤ I.max
  throws : (∀ q : ℚ, x.value = some (Extended.ofRat q) →
    ¬ (I.min ≤ roundHalfAway q ∧ roundHalfAway q ≤ I.max)) → ∃ what, o = .thrown (.runtimeError what)

theorem roundToInteger_cases (I : SignedInteger) (x : Double) :
    roundToInteger I x = tooLarge x ∨ (∃ n, roundToInteger I x = .returned n) ∨
      roundToInteger I x = .undefined := by
  unfold roundToInteger
  dsimp only
  split_ifs
  · exact .inl rfl
  · split
    · exact .inr (.inr rfl)
    · split_ifs
      · exact .inl rfl
      · exact .inr (.inl ⟨_, rfl⟩)

/-! ### What is compared, and what is rounded -/

section finite

variable {I : SignedInteger} {x : Double} (hfinite : x.exponent.val ≠ 2047)

include hfinite

theorem round_lt_min_iff : x.round < ofInt I.min ↔ roundHalfAway x.toRat < I.min := by
  rw [lt_iff (value_round_eq hfinite) I.value_min]
  simp [Extended.ofRat]

theorem max_lt_round_iff : ofInt I.max < x.round ↔ I.maxDouble < roundHalfAway x.toRat := by
  rw [lt_iff I.value_max (value_round_eq hfinite)]
  simp [Extended.ofRat]

theorem llround_eq : x.llround =
    if -2 ^ 63 ≤ roundHalfAway x.toRat ∧ roundHalfAway x.toRat < 2 ^ 63 then
      some (Int64.ofInt (roundHalfAway x.toRat))
    else none := by
  rw [llround, value_eq_some_iff.2 ⟨hfinite, rfl⟩]

end finite

theorem SignedInteger.bounds (I : SignedInteger) :
    -2 ^ 63 ≤ I.min ∧ I.min < 0 ∧ I.max < 2 ^ 63 ∧
      (I ≠ .int64 ∧ I.maxDouble = I.max ∨
        I = .int64 ∧ I.maxDouble = 2 ^ 63 ∧ I.max = 2 ^ 63 - 1) := by
  cases I <;> decide

theorem roundToInteger_finite (I : SignedInteger) {x : Double} (hfinite : x.exponent.val ≠ 2047) :
    roundToInteger I x =
      if roundHalfAway x.toRat < I.min ∨ I.maxDouble < roundHalfAway x.toRat then tooLarge x
      else if roundHalfAway x.toRat ≤ I.max then .returned (roundHalfAway x.toRat)
      else .undefined := by
  obtain ⟨hmin, -, hmax, hdouble⟩ := I.bounds
  simp only [roundToInteger, round_lt_min_iff hfinite, max_lt_round_iff hfinite,
    llround_eq hfinite]
  generalize roundHalfAway x.toRat = n
  split_ifs with hout hle hfits hfits
  · rfl
  · have hto : (Int64.ofInt n).toInt = n := Int64.toInt_ofInt_of_le (by omega) (by omega)
    simp only [hto]
    rw [if_neg (show ¬ (n < I.min ∨ I.max < n) by omega)]
  · omega
  · omega
  · rfl

theorem roundToInteger_infinite (I : SignedInteger) {x : Double} (hinfinite : x.exponent.val = 2047)
    (hx : x.value ≠ none) : roundToInteger I x = tooLarge x := by
  have hround : x.round = x := if_pos hinfinite
  have hout : x < ofInt I.min ∨ ofInt I.max < x := by
    obtain ⟨a, ha⟩ := Option.ne_none_iff_exists'.1 hx
    have ha' := ha
    rw [value, if_pos hinfinite] at ha'
    split_ifs at ha' with _ hsign
    · exact .inl ((lt_iff ha I.value_min).2 (by cases ha'; exact WithBot.bot_lt_coe _))
    · refine .inr ((lt_iff I.value_max ha).2 ?_)
      cases ha'
      exact WithBot.coe_lt_coe.2 (WithTop.coe_lt_top _)
  simp only [roundToInteger, hround]
  exact if_pos hout

theorem roundToInteger_nan (I : SignedInteger) {x : Double} (hx : x.value = none) :
    roundToInteger I x = .undefined := by
  have hinfinite : x.exponent.val = 2047 := by
    by_contra hfinite
    rw [value, if_neg hfinite] at hx
    cases hx
  have hround : x.round = x := if_pos hinfinite
  have hlow : ¬ x < ofInt I.min := by
    rintro ⟨a, ha, -⟩
    simp [hx] at ha
  have hhigh : ¬ ofInt I.max < x := by
    rintro ⟨-, -, a, ha, -⟩
    simp [hx] at ha
  simp only [roundToInteger, hround, hlow, hhigh, or_self, if_false, llround, hx]

theorem roundHalfAway_eq_two_pow_63_iff (x : Double) :
    roundHalfAway x.toRat = 2 ^ 63 ↔ x.toRat = 2 ^ 63 := by
  constructor
  · intro h
    have hlow : 2 ^ 63 ≤ x.toRat := by
      by_contra hlt
      rw [not_le] at hlt
      have hpos : 0 ≤ x.toRat := by
        by_contra hneg
        have hle := roundHalfAway_le (n := 0) (not_le.1 hneg).le
        omega
      have hpred := toRat_le_pred (k := 10) hpos (by norm_num at hlt ⊢; exact hlt)
      have hle := roundHalfAway_le (n := 2 ^ 63 - 2 ^ 10) (by norm_num at hpred ⊢; exact hpred)
      omega
    have hfloor : ⌊x.toRat + 1 / 2⌋ = 2 ^ 63 := by
      rwa [roundHalfAway, if_pos (le_trans (by norm_num) hlow)] at h
    have hhigh : x.toRat < 2 ^ 63 + 1 / 2 := by
      have hlt := Int.lt_floor_add_one (x.toRat + 1 / 2)
      rw [hfloor] at hlt
      push_cast at hlt
      linarith
    -- the next double is further away
    have hround := rounded_le_even (n := 2 ^ 52) (k := 11) (q := x.toRat) (by norm_num) (by norm_num)
      (by norm_num) (by norm_num) (by norm_num; linarith)
    rw [rounded_toRat] at hround
    norm_num at hround hlow ⊢
    exact le_antisymm hround hlow
  · intro h
    rw [h, show (2 : ℚ) ^ 63 = ((2 ^ 63 : ℤ) : ℚ) by norm_num]
    exact roundHalfAway_intCast _

theorem roundsOrThrows_tooLarge {I : SignedInteger} {x : Double}
    (h : ∀ q : ℚ, x.value = some (Extended.ofRat q) →
      ¬ (I.min ≤ roundHalfAway q ∧ roundHalfAway q ≤ I.max)) :
    RoundsOrThrows I x (tooLarge x) := by
  refine ⟨nofun, fun n => iff_of_false nofun ?_, fun _ => ⟨_, rfl⟩⟩
  rintro ⟨q, hq, rfl, hbounds⟩
  exact h q hq hbounds

theorem roundsOrThrows_returned {I : SignedInteger} {x : Double} {q : ℚ}
    (hq : x.value = some (Extended.ofRat q)) (hlow : I.min ≤ roundHalfAway q)
    (hhigh : roundHalfAway q ≤ I.max) : RoundsOrThrows I x (.returned (roundHalfAway q)) := by
  refine ⟨nofun, fun n => ⟨fun h => ?_, ?_⟩, fun h => absurd ⟨hlow, hhigh⟩ (h q hq)⟩
  · cases h
    exact ⟨q, hq, rfl, hlow, hhigh⟩
  · rintro ⟨q', hq', rfl, -⟩
    rw [toRat_of_value hq |>.symm, toRat_of_value hq' |>.symm]

/-- **`round_to_integer` is exact** on the numbers, except for `2 ^ 63` and the type of 64 bits. -/
theorem roundToInteger_exact_iff (I : SignedInteger) (x : Double) :
    RoundsOrThrows I x (roundToInteger I x) ↔
      x.value ≠ none ∧ ¬ (I = .int64 ∧ x.value = some (Extended.ofRat (2 ^ 63))) := by
  obtain ⟨-, hmin, hmax, hdouble⟩ := I.bounds
  by_cases hfinite : x.exponent.val ≠ 2047
  · have hvalue : x.value = some (Extended.ofRat x.toRat) := value_eq_some_iff.2 ⟨hfinite, rfl⟩
    have hlast : x.value = some (Extended.ofRat (2 ^ 63)) ↔ roundHalfAway x.toRat = 2 ^ 63 := by
      rw [roundHalfAway_eq_two_pow_63_iff, value_eq_some_iff]
      exact and_iff_right hfinite
    rw [roundToInteger_finite I hfinite, hlast]
    split_ifs with hout hle
    · refine iff_of_true (roundsOrThrows_tooLarge fun q hq => ?_) ⟨by simp [hvalue], ?_⟩
      · rw [← toRat_of_value hq]
        omega
      · rintro ⟨hI, hlast⟩
        obtain ⟨hne, -⟩ | ⟨-, hlast', -⟩ := hdouble
        · exact hne hI
        · omega
    · refine iff_of_true (roundsOrThrows_returned hvalue (by omega) hle) ⟨by simp [hvalue], ?_⟩
      omega
    · obtain ⟨-, hmax'⟩ | ⟨hI, hmax', hmax''⟩ := hdouble
      · omega
      · exact iff_of_false (fun h => h.specified rfl) fun h => h.2 ⟨hI, by omega⟩
  · by_cases hx : x.value = none
    · rw [roundToInteger_nan I hx]
      exact iff_of_false (fun h => h.specified rfl) fun h => h.1 hx
    · have hnot : ∀ q : ℚ, x.value ≠ some (Extended.ofRat q) := fun q hq =>
        hfinite (value_eq_some_iff.1 hq).1
      rw [roundToInteger_infinite I (not_not.1 hfinite) hx]
      exact iff_of_true (roundsOrThrows_tooLarge fun q hq => absurd hq (hnot q))
        ⟨hx, fun h => hnot _ h.2⟩

end Nanonet
