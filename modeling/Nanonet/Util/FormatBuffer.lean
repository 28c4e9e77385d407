import Nanonet.Lib.DoubleArithmetic
import Nanonet.Util.FormatTime
import Nanonet.Util.WholeHours

/-!
# The buffer of formatted times

`format_time_hh_mm` and `format_time_hh_mmt` print doubles into 30 bytes. The hours grow with the
time, and are too long from some time on. Before that, they can still be rounded up to more than the
time, and the minutes are a long negative number. `Budget.fitsBuffer_iff` says for either format
which times are printed into the buffer.
-/

namespace Nanonet

open Floating (literal)
open Double

instance : Floating Double where
  literal := Double.ofRat
  floor := Double.floor
  round := Double.round
  printf := Double.printf

def hoursOf (dt : Double) : Double := Floating.floor (dt / literal Units.hour)

def restOf (dt : Double) : Double := dt - hoursOf dt * literal Units.hour

theorem value_zero : (literal 0 : Double).value = some (Extended.ofRat 0) :=
  value_ofRat_intCast (n := 0) (by norm_num)

theorem value_hour : (literal Units.hour : Double).value = some (Extended.ofRat 3600) :=
  value_ofRat_intCast (n := 3600) (by norm_num)

theorem le_hour_mul {x : ℚ} (h : x ≤ 2 ^ 1024) : x ≤ 3600 * 2 ^ 1013 := by
  have hhour : (2 : ℚ) ^ 11 ≤ 3600 := by norm_num
  rw [show 1024 = 11 + 1013 from rfl, pow_add] at h
  exact h.trans (mul_le_mul_of_nonneg_right hhour (by positivity))

section values

variable {dt : Double} {x : ℚ} (hdt : dt.value = some (Extended.ofRat x)) (hx : 0 ≤ x)

include hdt hx

theorem value_hoursOf (h : x ≤ 2 ^ 1024) :
    (hoursOf dt).value = some (Extended.ofRat (wholeHours x)) := by
  have hle := le_hour_mul h
  have hquot : |x / 3600| ≤ 2 ^ 1013 := by
    rw [abs_of_nonneg (by positivity), div_le_iff₀ (by norm_num), mul_comm]
    exact hle
  have hfloor : |(wholeHours x : ℚ)| ≤ 2 ^ 1013 := by
    rw [abs_of_nonneg (Int.cast_nonneg (wholeHours_nonneg hx))]
    exact wholeHours_le hle
  rw [← rounded_wholeHours hx]
  have hdiv := value_div hdt value_hour (by norm_num) (abs_lt_of_le_two_pow hquot (by decide))
  exact value_floor hdiv (abs_lt_of_le_two_pow hfloor (by decide))

theorem value_restOf (h : x ≤ 2 ^ 99) :
    (restOf dt).value = some (Extended.ofRat (restAfter x)) := by
  have hhours := value_hoursOf hdt hx (h.trans (pow_le_pow_right₀ (by norm_num) (by decide)))
  have hproduct := value_mul hhours value_hour
    (abs_lt_of_le_two_pow (abs_hours_mul_le hx h) (by decide))
  exact value_sub hdt hproduct (abs_lt_of_le_two_pow (abs_sub_hours_mul_le hx h) (by decide))

end values

theorem value_hoursOf_finite {dt : Double} (hfinite : dt.exponent.val ≠ 2047) (hdt : 0 ≤ dt.toRat) :
    (hoursOf dt).value = some (Extended.ofRat (wholeHours dt.toRat)) :=
  value_hoursOf (value_eq_some_iff.2 ⟨hfinite, rfl⟩) hdt (le_of_abs_le (abs_toRat_le hfinite))

/-- How far the minutes can be from what is left after the hours, where it is negative: no less than
`-b` as long as `low * b` seconds are missing, and no more if `high * b` are. -/
def BoundsMinutes (low high : ℕ) (minutes : Double → Double) : Prop :=
  ∀ ⦃rest : Double⦄ ⦃q : ℚ⦄, rest.value = some (Extended.ofRat q) → |q| ≤ 2 ^ 100 →
    ∃ y : ℚ, (minutes rest).value = some (Extended.ofRat y) ∧ ∀ b : ℕ, b ≤ 10 ^ 7 →
      (-(low * b : ℕ) ≤ q → -b ≤ y) ∧ (q ≤ -(high * b : ℕ) → y ≤ -b)

theorem value_minute : (literal Units.minute : Double).value = some (Extended.ofRat 60) :=
  value_ofRat_intCast (n := 60) (by norm_num)

theorem abs_div_minute_le {q : ℚ} {n : ℕ} (h : |q| ≤ 2 ^ n) : |q / 60| ≤ 2 ^ n := by
  have hsixty : |(60 : ℚ)| = 60 := by norm_num
  rw [abs_div, hsixty, div_le_iff₀ (by norm_num)]
  have hpow : (0 : ℚ) ≤ 2 ^ n := by positivity
  linarith

section ticks

variable {a : ℚ} {c : ℕ} (hc : c ≤ 2 ^ 53)

include hc

theorem le_ticks (h : -(60 * c) ≤ a) : -(c : ℚ) ≤ rounded (roundHalfAway (rounded (a / 60))) := by
  have hexact : (-c : ℤ).natAbs ≤ 2 ^ 53 := by omega
  have hquot : ((-c : ℤ) : ℚ) ≤ a / 60 := by
    rw [le_div_iff₀ (by norm_num)]
    push_cast
    linarith
  have hticks := le_roundHalfAway (intCast_le_rounded hexact hquot)
  exact_mod_cast intCast_le_rounded hexact (Int.cast_le.2 hticks)

theorem ticks_le (h : a ≤ -(60 * c)) : rounded (roundHalfAway (rounded (a / 60))) ≤ -(c : ℚ) := by
  have hexact : (-c : ℤ).natAbs ≤ 2 ^ 53 := by omega
  have hquot : a / 60 ≤ ((-c : ℤ) : ℚ) := by
    rw [div_le_iff₀ (by norm_num)]
    push_cast
    linarith
  have hticks := roundHalfAway_le (rounded_le_intCast hexact hquot)
  exact_mod_cast rounded_le_intCast hexact (Int.cast_le.2 hticks)

end ticks

theorem boundsMinutes_hhMm :
    BoundsMinutes 60 60 fun rest => Floating.round (rest / literal Units.minute) := by
  intro rest q hrest hq
  have hquot := abs_div_minute_le hq
  have hround := value_round
    (value_div hrest value_minute (by norm_num) (abs_lt_of_le_two_pow hquot (by decide)))
    (abs_lt_of_le_two_pow (abs_roundHalfAway_le_two_pow (abs_rounded_le_two_pow hquot)) (by decide))
  refine ⟨_, hround, fun b hb => ⟨fun h => ?_, fun h => ?_⟩⟩
  · exact le_ticks (by omega) (by exact_mod_cast h)
  · exact ticks_le (by omega) (by exact_mod_cast h)

theorem tenth_bounds : 3 / 32 ≤ rounded (1 / 10) ∧ rounded (1 / 10) ≤ 1 / 8 := by
  have hlow := le_rounded (q := 1 / 10) (m := 3) (k := -5) (by norm_num) (by norm_num)
    (by norm_num)
  have hhigh := rounded_le (q := 1 / 10) (m := 1) (k := -3) (by norm_num) (by norm_num)
    (by norm_num)
  norm_num at hlow hhigh
  constructor <;> linarith

theorem value_tenth : (literal (1 / 10) : Double).value = some (Extended.ofRat (rounded (1 / 10))) :=
  value_ofRat (abs_lt_of_le_two_pow (n := 0) (by norm_num) (by decide))

theorem le_rounded_tenth_mul {ticks : ℚ} {b : ℕ} (hb : b ≤ 2 ^ 53) (h : -(8 * b) ≤ ticks) :
    -(b : ℚ) ≤ rounded (rounded (1 / 10) * ticks) := by
  obtain ⟨htenth, htenth'⟩ := tenth_bounds
  have hexact : (-b : ℤ).natAbs ≤ 2 ^ 53 := by omega
  have hscaled : ((-b : ℤ) : ℚ) ≤ rounded (1 / 10) * ticks := by
    push_cast
    calc -(b : ℚ) = -(8 * b) * (1 / 8) := by ring
      _ ≤ -(8 * b) * rounded (1 / 10) := mul_le_mul_of_nonpos_left htenth' (by simp)
      _ ≤ ticks * rounded (1 / 10) := mul_le_mul_of_nonneg_right h (by linarith)
      _ = rounded (1 / 10) * ticks := mul_comm _ _
  exact_mod_cast intCast_le_rounded hexact hscaled

theorem rounded_tenth_mul_le {ticks : ℚ} {b : ℕ} (hb : b ≤ 2 ^ 53) (h : ticks ≤ -(11 * b)) :
    rounded (rounded (1 / 10) * ticks) ≤ -(b : ℚ) := by
  obtain ⟨htenth, htenth'⟩ := tenth_bounds
  have hexact : (-b : ℤ).natAbs ≤ 2 ^ 53 := by omega
  have hb0 : (0 : ℚ) ≤ b := Nat.cast_nonneg b
  have hscaled : rounded (1 / 10) * ticks ≤ ((-b : ℤ) : ℚ) := by
    push_cast
    calc rounded (1 / 10) * ticks ≤ rounded (1 / 10) * -(11 * b) :=
          mul_le_mul_of_nonneg_left h (by linarith)
      _ = -(11 * b) * rounded (1 / 10) := mul_comm _ _
      _ ≤ -(11 * b) * (3 / 32) := mul_le_mul_of_nonpos_left htenth (by simp)
      _ ≤ -(b : ℚ) := by linarith
  exact_mod_cast rounded_le_intCast hexact hscaled

theorem boundsMinutes_hhMmt :
    BoundsMinutes 48 66 fun rest => literal (1 / 10) *
      Floating.round (literal 10 * rest / literal Units.minute) := by
  intro rest q hrest hq
  obtain ⟨htenth, htenth'⟩ := tenth_bounds
  have hten : (literal 10 : Double).value = some (Extended.ofRat 10) :=
    value_ofRat_intCast (n := 10) (by norm_num)
  have hmul : |10 * q| ≤ 2 ^ 104 := by
    rw [abs_mul]
    norm_num
    linarith
  have hquot := abs_div_minute_le (abs_rounded_le_two_pow hmul)
  have hrounded := abs_roundHalfAway_le_two_pow (abs_rounded_le_two_pow hquot)
  have htens := value_mul hten hrest (abs_lt_of_le_two_pow hmul (by decide))
  have hround := value_round
    (value_div htens value_minute (by norm_num) (abs_lt_of_le_two_pow hquot (by decide)))
    (abs_lt_of_le_two_pow hrounded (by decide))
  set ticks := rounded (roundHalfAway (rounded (rounded (10 * q) / 60))) with hticks
  have hproduct : |rounded (1 / 10) * ticks| ≤ 2 ^ 104 := by
    rw [abs_mul, abs_of_nonneg (by linarith)]
    refine (mul_le_of_le_one_left (abs_nonneg _) (by linarith)).trans ?_
    exact abs_rounded_le_two_pow hrounded
  refine ⟨_, value_mul value_tenth hround (abs_lt_of_le_two_pow hproduct (by decide)), fun b hb => ?_⟩
  constructor
  · intro h
    have htens : ((-(480 * b) : ℤ) : ℚ) ≤ rounded (10 * q) := by
      refine intCast_le_rounded (by omega) ?_
      push_cast at h ⊢
      linarith
    have hlow : -((8 * b : ℕ) : ℚ) ≤ ticks :=
      le_ticks (by omega) (by push_cast at htens ⊢; linarith)
    exact le_rounded_tenth_mul (by omega) (by exact_mod_cast hlow)
  · intro h
    have htens : rounded (10 * q) ≤ ((-(660 * b) : ℤ) : ℚ) := by
      refine rounded_le_intCast (by omega) ?_
      push_cast at h ⊢
      linarith
    have hhigh : ticks ≤ -((11 * b : ℕ) : ℚ) :=
      ticks_le (by omega) (by push_cast at htens ⊢; linarith)
    exact rounded_tenth_mul_le (by omega) (by exact_mod_cast hhigh)

/-! ### The budget of a format -/

/-- What was printed fits the buffer of 30 bytes, with the terminating zero. -/
def FitsBuffer (result : Except Exn Text) : Prop :=
  ∃ text, result = .ok text ∧ text.length + 1 ≤ 30

/-- Minutes that are as much as 59.99 are carried into the hours. -/
def carry (h m : Double) : Double × Double :=
  if literal (5999 / 100) ≤ m then (h + literal 1, literal 0) else (h, m)

/-- The hours and minutes that are printed. -/
def hoursMinutes (minutes : Double → Double) (dt : Double) : Double × Double :=
  carry (hoursOf dt) (minutes (restOf dt))

/-- The length of the hours, the colon and the minutes. -/
def printedLength (width precision : ℕ) (hm : Double × Double) : ℕ :=
  (printf 0 0 hm.1).length + 1 + (printf width precision hm.2).length

section printing

variable {width precision : ℕ} {minutes : Double → Double} {dt : Double} (hdt : literal 0 ≤ dt)

include hdt

theorem formatTimeWith_double (skipHour : Bool) :
    formatTimeWith width precision minutes dt skipHour =
      let hm := hoursMinutes minutes dt
      if hm.1 < literal (1 / 10) ∧ skipHour then .ok (printf width precision hm.2)
      else .ok (printf 0 0 hm.1 ++ ':' :: printf width precision hm.2) :=
  if_pos hdt

theorem fitsBuffer_of_length (skipHour : Bool)
    (h : printedLength width precision (hoursMinutes minutes dt) ≤ 29) :
    FitsBuffer (formatTimeWith width precision minutes dt skipHour) := by
  rw [formatTimeWith_double hdt]
  generalize hoursMinutes minutes dt = hm at h ⊢
  unfold printedLength at h
  dsimp only
  split_ifs
  · refine ⟨_, rfl, ?_⟩
    omega
  · refine ⟨_, rfl, ?_⟩
    rw [List.length_append, List.length_cons]
    omega

theorem not_fitsBuffer_of_length (skipHour : Bool)
    (hhour : ¬ (hoursMinutes minutes dt).1 < literal (1 / 10))
    (h : 29 < printedLength width precision (hoursMinutes minutes dt)) :
    ¬ FitsBuffer (formatTimeWith width precision minutes dt skipHour) := by
  rw [formatTimeWith_double hdt]
  generalize hoursMinutes minutes dt = hm at hhour h ⊢
  unfold printedLength at h
  dsimp only
  rw [if_neg fun hskip => hhour hskip.1]
  rintro ⟨text, hok, hlength⟩
  obtain rfl := Except.ok.inj hok
  rw [List.length_append, List.length_cons] at hlength
  omega

end printing

section lengths

variable (precision : ℕ) {h m : Double} {a y : ℚ} (hh : h.value = some (Extended.ofRat a))
  (hm : m.value = some (Extended.ofRat y))

theorem carryLimit_bounds : 59 ≤ rounded (5999 / 100) ∧ rounded (5999 / 100) ≤ 60 := by
  have hlow := intCast_le_rounded (q := 5999 / 100) (n := 59) (by norm_num) (by norm_num)
  have hhigh := rounded_le_intCast (q := 5999 / 100) (n := 60) (by norm_num) (by norm_num)
  exact ⟨by exact_mod_cast hlow, by exact_mod_cast hhigh⟩

include hm in
theorem carry_eq : carry h m =
    if rounded (5999 / 100) ≤ y then (h + literal 1, literal 0) else (h, m) := by
  have hlimit : (literal (5999 / 100) : Double).value =
      some (Extended.ofRat (rounded (5999 / 100))) :=
    value_ofRat (abs_lt_of_le_two_pow (n := 6) (by norm_num [abs_of_nonneg]) (by decide))
  unfold carry
  simp only [le_iff hlimit hm]

include hm in
theorem carry_of_neg (hy : y < 0) : carry h m = (h, m) := by
  have hnot : ¬ rounded (5999 / 100) ≤ y := by
    have hlimit := carryLimit_bounds.1
    linarith
  rw [carry_eq hm, if_neg hnot]

theorem value_add_one (hh : h.value = some (Extended.ofRat a)) (ha : 0 ≤ a) (ha' : a ≤ 2 ^ 1013) :
    (h + literal 1).value = some (Extended.ofRat (rounded (a + 1))) := by
  have hone : (literal 1 : Double).value = some (Extended.ofRat 1) :=
    value_ofRat_intCast (n := 1) (by norm_num)
  have hsum : |a + 1| ≤ 2 ^ 1014 := by
    have hpow : (1 : ℚ) ≤ 2 ^ 1013 := one_le_pow₀ (by norm_num)
    rw [abs_of_nonneg (by linarith), pow_succ _ 1013, mul_two]
    exact add_le_add ha' hpow
  exact value_add hh hone (abs_lt_of_le_two_pow hsum (by decide))

include hm in
theorem length_minutes_le (hy : 0 ≤ y) (hy' : y ≤ 60) :
    (printf (2 + fractionLength precision) precision m).length ≤ 2 + fractionLength precision := by
  have hlength := length_printf_le_of_nonneg (2 + fractionLength precision) precision hm two_pos hy
    (by exact_mod_cast hy') (by decide : 60 < 10 ^ 2)
  rwa [max_self, max_self] at hlength

include hh hm in
theorem printedLength_of_nonneg {bound digits : ℕ} (hdigits : 2 ≤ digits)
    (hbound : bound < 10 ^ digits) (ha : 0 ≤ a) (ha' : a ≤ 2 ^ 1013) (hle : a ≤ bound)
    (hle' : rounded (a + 1) ≤ bound) (hy : 0 ≤ y) :
    printedLength (2 + fractionLength precision) precision (carry h m) ≤
      digits + 1 + (2 + fractionLength precision) := by
  have hhours {h : Double} {a : ℚ} (hh : h.value = some (Extended.ofRat a)) (ha : 0 ≤ a)
      (hle : a ≤ bound) : (printf 0 0 h).length ≤ digits := by
    have hlength := length_printf_le_of_nonneg 0 0 hh (by omega) ha hle hbound
    rw [max_eq_right hdigits] at hlength
    simpa [fractionLength] using hlength
  rw [carry_eq hm]
  split_ifs with hcarry
  · have hnonneg : 0 ≤ rounded (a + 1) := rounded_nonneg (by linarith)
    have hlength := hhours (value_add_one hh ha ha') hnonneg hle'
    have hlength' := length_minutes_le precision value_zero le_rfl (by norm_num)
    dsimp only [printedLength]
    omega
  · have hlength := hhours hh ha hle
    have hlength' := length_minutes_le precision hm hy
      ((not_le.1 hcarry).le.trans carryLimit_bounds.2)
    dsimp only [printedLength]
    omega

include hh hm in
theorem printedLength_of_neg {bound hourDigits bound' minuteDigits : ℕ} (hhour : 2 ≤ hourDigits)
    (hbound : bound < 10 ^ hourDigits) (hminute : 0 < minuteDigits)
    (hbound' : bound' < 10 ^ minuteDigits) (ha : 0 ≤ a) (hle : a ≤ bound) (hy : y < 0)
    (hle' : -bound' ≤ y) :
    printedLength (2 + fractionLength precision) precision (carry h m) ≤
      hourDigits + 1 + (1 + minuteDigits + fractionLength precision) := by
  have hlength := length_printf_le_of_nonneg 0 0 hh (by omega) ha hle hbound
  have hlength' := length_printf_le (2 + fractionLength precision) precision hm hminute
    (abs_le.2 ⟨hle', by have hcast : (0 : ℚ) ≤ bound' := Nat.cast_nonneg bound'; linarith⟩) hbound'
  have hfraction : fractionLength 0 = 0 := rfl
  rw [carry_of_neg hm hy]
  dsimp only [printedLength]
  omega

include hh in
theorem not_lt_tenth (ha : 1 ≤ a) : ¬ h < literal (1 / 10) := by
  refine not_lt_of_le ((le_iff value_tenth hh).2 ?_)
  linarith [tenth_bounds.2]

include hh in
theorem lt_printedLength_of_hours (width : ℕ) {digits : ℕ} (ha : 10 ^ digits ≤ a)
    (ha' : a ≤ 2 ^ 1013) (hrounded : rounded a = a) (m : Double) :
    digits + 1 + width < printedLength width precision (carry h m) ∧
      ¬ (carry h m).1 < literal (1 / 10) := by
  have hone : 1 ≤ a := le_trans (one_le_pow₀ (by norm_num)) ha
  have hlong {h m : Double} {a : ℚ} (hh : h.value = some (Extended.ofRat a))
      (ha : 10 ^ digits ≤ a) : digits + 1 + width < printedLength width precision (h, m) := by
    have habs : 10 ^ digits ≤ |a| := ha.trans (le_abs_self a)
    have hlength := lt_length_printf 0 0 hh habs
    have hwidth := width_le_length_printf width precision m
    dsimp only [printedLength]
    omega
  unfold carry
  split_ifs
  · have hle : a ≤ rounded (a + 1) := le_rounded_of_rounded_eq hrounded (by linarith)
    have hvalue := value_add_one hh (by linarith) ha'
    exact ⟨hlong hvalue (ha.trans hle), not_lt_tenth hvalue (hone.trans hle)⟩
  · exact ⟨hlong hh ha, not_lt_tenth hh hone⟩

include hh hm in
theorem lt_printedLength_of_minutes (width : ℕ) {hourDigits minuteDigits : ℕ}
    (ha : 10 ^ hourDigits ≤ a) (hy : y ≤ -10 ^ minuteDigits) :
    hourDigits + minuteDigits + fractionLength precision + 3 <
        printedLength width precision (carry h m) ∧
      ¬ (carry h m).1 < literal (1 / 10) := by
  have hone : 1 ≤ a := le_trans (one_le_pow₀ (by norm_num)) ha
  have hpos : (0 : ℚ) < 10 ^ minuteDigits := by positivity
  have hneg : y < 0 := by linarith
  have hlength := lt_length_printf 0 0 hh (ha.trans (le_abs_self a))
  have habs : 10 ^ minuteDigits ≤ |y| := by
    rw [abs_of_neg hneg]
    linarith
  have hlength' := lt_length_printf width precision hm habs
  rw [if_pos hneg] at hlength'
  rw [carry_of_neg hm hneg]
  refine ⟨?_, not_lt_tenth hh hone⟩
  dsimp only [printedLength]
  omega

end lengths

/-- How the 29 characters of a format are used up. Beside two digits of minutes, the hours may have
`digits` digits, and `significand * 2 ^ place` is the last double of so many. Where the hours exceed
the time, they have `hourDigits` digits and one more at `maxScale`, and the minutes have a sign and
`minuteDigits` digits before the point; at the next scale they have one more. -/
structure Budget (precision : ℕ) (minutes : Double → Double) where
  digits : ℕ
  significand : ℕ
  place : ℕ
  hourDigits : ℕ
  minuteDigits : ℕ
  maxScale : ℕ
  low : ℕ
  high : ℕ
  bounds : BoundsMinutes low high minutes
  digits_add : digits + fractionLength precision = 26 := by decide
  digits_ge : 20 ≤ digits := by decide
  even : significand % 2 = 0 := by decide
  le_significand : 2 ^ 52 ≤ significand := by decide
  significand_lt_pow : significand < 2 ^ 53 := by decide
  place_pos : 0 < place := by decide
  place_le : place ≤ 34 := by decide
  last_lt : significand * 2 ^ place < 10 ^ digits := by decide
  le_next : 10 ^ digits ≤ (significand + 1) * 2 ^ place := by decide
  hourDigits_pos : 0 < hourDigits := by decide
  hourDigits_add : hourDigits + minuteDigits + fractionLength precision = 26 := by decide
  maxScale_ge : 14 ≤ maxScale := by decide
  le_hours : 10 ^ hourDigits ≤ 2 ^ (maxScale + 42) := by decide
  hours_lt : 2 ^ (maxScale + 42) < 10 ^ (hourDigits + 1) := by decide
  minuteDigits_pos : 0 < minuteDigits := by decide
  minuteDigits_le : minuteDigits ≤ 7 := by decide
  low_ge : 39 ≤ low := by decide
  unit_le : 2 ^ maxScale ≤ low * (10 ^ minuteDigits - 1) := by decide
  le_unit : high * 10 ^ minuteDigits ≤ 2 ^ (maxScale + 1) := by decide

def hhMmBudget : Budget 0 fun rest => Floating.round (rest / literal Units.minute) where
  digits := 26
  significand := 5820766091346740
  place := 34
  hourDigits := 20
  minuteDigits := 6
  maxScale := 25
  low := 60
  high := 60
  bounds := boundsMinutes_hhMm

def hhMmtBudget : Budget 1 fun rest => literal (1 / 10) *
    Floating.round (literal 10 * rest / literal Units.minute) where
  digits := 24
  significand := 7450580596923828
  place := 27
  hourDigits := 19
  minuteDigits := 5
  maxScale := 22
  low := 48
  high := 66
  bounds := boundsMinutes_hhMmt

theorem toRat_lt_of_scale {dt : Double} (hdt : 0 ≤ dt.toRat) (h : dt.scale < 14) :
    dt.toRat < 2 ^ 66 := by
  have hsignificand : (dt.significand : ℚ) < 2 ^ 53 := by exact_mod_cast significand_lt dt
  have hunit : (2 : ℚ) ^ dt.scale ≤ 2 ^ (13 : ℤ) := zpow_le_zpow_right₀ (by norm_num) (by omega)
  rw [toRat_of_nonneg hdt]
  calc (dt.significand : ℚ) * 2 ^ dt.scale < 2 ^ 53 * 2 ^ dt.scale := by gcongr
    _ ≤ 2 ^ 53 * 2 ^ (13 : ℤ) := by gcongr
    _ = 2 ^ 66 := by norm_num

namespace Budget

variable {precision : ℕ} {minutes : Double → Double} (b : Budget precision minutes)

/-- The last time whose hours have so many digits. -/
def limit : ℚ := 3600 * ((b.significand + 1 / 2) * 2 ^ b.place)

/-- The times that are printed within the budget. -/
def Met (dt : Double) : Prop :=
  dt.toRat ≤ b.limit ∧ (dt.scale ≤ b.maxScale ∨ ¬ HoursExceed dt.significand)

theorem limit_le : b.limit ≤ 2 ^ 99 := by
  have hsignificand : (b.significand : ℚ) + 1 / 2 ≤ 2 ^ 53 := by
    have hlt : (b.significand : ℚ) + 1 ≤ 2 ^ 53 := by exact_mod_cast b.significand_lt_pow
    linarith
  have hplace : (2 : ℚ) ^ b.place ≤ 2 ^ 34 := pow_le_pow_right₀ (by norm_num) b.place_le
  calc b.limit ≤ 3600 * (2 ^ 53 * 2 ^ 34) := by
        unfold limit
        gcongr
    _ ≤ 2 ^ 99 := by norm_num

theorem hours_le_last {x : ℚ} (h : x ≤ b.limit) :
    (wholeHours x : ℚ) ≤ (b.significand * 2 ^ b.place : ℕ) ∧
      rounded (wholeHours x + 1) ≤ (b.significand * 2 ^ b.place : ℕ) := by
  have hkept {q : ℚ} (hq : q ≤ (b.significand + 1 / 2) * 2 ^ b.place) :
      rounded q ≤ (b.significand * 2 ^ b.place : ℕ) := by
    have hle := rounded_le_even (q := q) (k := b.place) (by omega) b.le_significand
      b.significand_lt_pow b.even (by rwa [zpow_natCast])
    rw [zpow_natCast] at hle
    exact_mod_cast hle
  have hquot : x / 3600 ≤ (b.significand + 1 / 2) * 2 ^ b.place := by
    rw [div_le_iff₀ (by norm_num), mul_comm]
    exact h
  have hhours : (wholeHours x : ℚ) ≤ (b.significand * 2 ^ b.place : ℕ) :=
    (Int.floor_le _).trans (hkept hquot)
  refine ⟨hhours, hkept ?_⟩
  have hplace : (2 : ℚ) ^ 1 ≤ 2 ^ b.place := pow_le_pow_right₀ (by norm_num) b.place_pos
  push_cast at hhours
  linarith

theorem le_hours_of_limit {x : ℚ} (h : b.limit < x) : 10 ^ b.digits ≤ (wholeHours x : ℚ) := by
  have hquot : (b.significand + 1 / 2) * 2 ^ (b.place : ℤ) < x / 3600 := by
    rw [lt_div_iff₀ (by norm_num), mul_comm, zpow_natCast]
    exact h
  have hrounded := succ_le_rounded (by omega) b.le_significand b.significand_lt_pow hquot
  rw [zpow_natCast] at hrounded
  have hnext : (10 : ℚ) ^ b.digits ≤ (b.significand + 1) * 2 ^ b.place := by
    exact_mod_cast b.le_next
  have hfloor : (10 ^ b.digits : ℤ) ≤ wholeHours x :=
    Int.le_floor.2 (by push_cast; exact hnext.trans hrounded)
  exact_mod_cast hfloor

section double

variable {dt : Double} (hfinite : dt.exponent.val ≠ 2047) (hdt : 0 ≤ dt.toRat)

include b hfinite hdt

theorem short_length_le (hshort : dt.toRat < 2 ^ 66) {y : ℚ}
    (hy : (minutes (restOf dt)).value = some (Extended.ofRat y)) (hneg : y < 0) (hlow : -400 ≤ y) :
    printedLength (2 + fractionLength precision) precision (hoursMinutes minutes dt) ≤ 29 := by
  have hvalue := value_hoursOf_finite hfinite hdt
  have hhours := wholeHours_le (x := dt.toRat) (n := 55) (hshort.le.trans (by norm_num))
  have hlength := printedLength_of_neg precision hvalue hy (by decide)
    (by decide : 2 ^ 55 < 10 ^ 17) (by decide) (by decide : 400 < 10 ^ 3)
    (Int.cast_nonneg (wholeHours_nonneg hdt)) (by exact_mod_cast hhours) hneg
    (by exact_mod_cast hlow)
  have hdigits := b.digits_add
  have hge := b.digits_ge
  unfold hoursMinutes
  omega

theorem not_fits_of_limit (h : b.limit < dt.toRat) :
    29 < printedLength (2 + fractionLength precision) precision (hoursMinutes minutes dt) ∧
      ¬ (hoursMinutes minutes dt).1 < literal (1 / 10) := by
  have hle := le_of_abs_le (abs_toRat_le hfinite)
  have hvalue := value_hoursOf_finite hfinite hdt
  have hhours := wholeHours_le (le_hour_mul hle)
  obtain ⟨hlength, htenth⟩ := lt_printedLength_of_hours precision hvalue
    (2 + fractionLength precision) (b.le_hours_of_limit h) hhours (rounded_wholeHours hdt)
    (minutes (restOf dt))
  have hdigits := b.digits_add
  unfold hoursMinutes
  exact ⟨by omega, htenth⟩

theorem exists_value_minutes (h : dt.toRat ≤ b.limit) :
    ∃ y, (minutes (restOf dt)).value = some (Extended.ofRat y) ∧ ∀ n : ℕ, n ≤ 10 ^ 7 →
      (-(b.low * n : ℕ) ≤ restAfter dt.toRat → -n ≤ y) ∧
        (restAfter dt.toRat ≤ -(b.high * n : ℕ) → y ≤ -n) := by
  have hle := h.trans b.limit_le
  exact b.bounds (value_restOf (value_eq_some_iff.2 ⟨hfinite, rfl⟩) hdt hle)
    (abs_rounded_le_two_pow (abs_sub_hours_mul_le hdt hle))

theorem not_fits_of_exceed (h : dt.toRat ≤ b.limit) (hscale : b.maxScale < dt.scale)
    (hexceed : HoursExceed dt.significand) :
    29 < printedLength (2 + fractionLength precision) precision (hoursMinutes minutes dt) ∧
      ¬ (hoursMinutes minutes dt).1 < literal (1 / 10) := by
  have hvalue := value_hoursOf_finite hfinite hdt
  obtain ⟨y, hy, hbounds⟩ := b.exists_value_minutes hfinite hdt h
  have hmaxScale := b.maxScale_ge
  have hcases := restAfter_cases (s := dt.scale) (by omega) (le_significand_of_scale (by omega))
    (significand_lt dt)
  rw [← toRat_of_nonneg hdt] at hcases
  rcases hcases with ⟨hnot, -⟩ | ⟨-, hrest, hhours, -⟩
  · exact absurd hexceed hnot
  have hunit : (2 : ℚ) ^ (b.maxScale + 1 : ℕ) ≤ 2 ^ dt.scale := by
    rw [← zpow_natCast]
    exact zpow_le_zpow_right₀ (by norm_num) (by push_cast; omega)
  have hminutes : y ≤ -(10 ^ b.minuteDigits : ℕ) := by
    refine (hbounds _ (Nat.pow_le_pow_right (by decide) b.minuteDigits_le)).2 ?_
    have hle : ((b.high * 10 ^ b.minuteDigits : ℕ) : ℚ) ≤ (2 ^ (b.maxScale + 1) : ℕ) :=
      Nat.cast_le.2 b.le_unit
    rw [hrest]
    push_cast at hle hunit ⊢
    linarith
  have hlong : (10 : ℚ) ^ b.hourDigits ≤ wholeHours dt.toRat := by
    have hle : ((10 ^ b.hourDigits : ℕ) : ℚ) ≤ (2 ^ (b.maxScale + 42) : ℕ) :=
      Nat.cast_le.2 b.le_hours
    have hpow : (2 : ℚ) ^ (b.maxScale + 42 : ℕ) ≤ 2 ^ (dt.scale + 41) := by
      rw [← zpow_natCast]
      exact zpow_le_zpow_right₀ (by norm_num) (by push_cast; omega)
    push_cast at hle hpow
    linarith
  obtain ⟨hlength, htenth⟩ := lt_printedLength_of_minutes precision hvalue hy
    (2 + fractionLength precision) hlong (by exact_mod_cast hminutes)
  have hdigits := b.hourDigits_add
  unfold hoursMinutes
  exact ⟨by omega, htenth⟩

theorem fits_of_nonneg (h : dt.toRat ≤ b.limit) {y : ℚ}
    (hy : (minutes (restOf dt)).value = some (Extended.ofRat y)) (hnonneg : 0 ≤ y) :
    printedLength (2 + fractionLength precision) precision (hoursMinutes minutes dt) ≤ 29 := by
  have hle := le_of_abs_le (abs_toRat_le hfinite)
  have hvalue := value_hoursOf_finite hfinite hdt
  have hge := b.digits_ge
  have hdigits := b.digits_add
  obtain ⟨hlast, hnext⟩ := b.hours_le_last h
  have hlength := printedLength_of_nonneg precision hvalue hy (by omega) b.last_lt
    (Int.cast_nonneg (wholeHours_nonneg hdt)) (wholeHours_le (le_hour_mul hle)) hlast hnext hnonneg
  unfold hoursMinutes
  omega

theorem fits_of_exceed {s : ℕ} (hs : s ≤ b.maxScale) (hrest : restAfter dt.toRat = -2 ^ s)
    (hhours : (wholeHours dt.toRat : ℚ) ≤ 2 ^ (s + 42)) {y : ℚ}
    (hy : (minutes (restOf dt)).value = some (Extended.ofRat y)) (hneg : y < 0)
    (hbounds : ∀ n : ℕ, n ≤ 10 ^ 7 → -(b.low * n : ℕ) ≤ restAfter dt.toRat → -n ≤ y) :
    printedLength (2 + fractionLength precision) precision (hoursMinutes minutes dt) ≤ 29 := by
  have hvalue := value_hoursOf_finite hfinite hdt
  have hpow : 10 ^ b.minuteDigits ≤ 10 ^ 7 := Nat.pow_le_pow_right (by decide) b.minuteDigits_le
  have hpos : 0 < 10 ^ b.minuteDigits := by positivity
  have hunit : 2 ^ s ≤ b.low * (10 ^ b.minuteDigits - 1) :=
    (Nat.pow_le_pow_right (by decide) hs).trans b.unit_le
  have hminutes : -((10 ^ b.minuteDigits - 1 : ℕ) : ℚ) ≤ y := by
    refine hbounds _ (by omega) ?_
    rw [hrest]
    exact neg_le_neg (by exact_mod_cast hunit)
  have hhours' : (wholeHours dt.toRat : ℚ) ≤ (2 ^ (b.maxScale + 42) : ℕ) := by
    push_cast
    exact hhours.trans (pow_le_pow_right₀ (by norm_num) (by omega))
  have hmaxScale := b.maxScale_ge
  have hlength := printedLength_of_neg precision hvalue hy
    (Nat.succ_lt_succ b.hourDigits_pos) b.hours_lt b.minuteDigits_pos
    (by omega : 10 ^ b.minuteDigits - 1 < 10 ^ b.minuteDigits)
    (Int.cast_nonneg (wholeHours_nonneg hdt)) hhours' hneg hminutes
  have hdigits := b.hourDigits_add
  unfold hoursMinutes
  omega

theorem length_le_of_met (h : b.Met dt) :
    printedLength (2 + fractionLength precision) precision (hoursMinutes minutes dt) ≤ 29 := by
  obtain ⟨hlimit, hscale⟩ := h
  obtain ⟨y, hy, hbounds⟩ := b.exists_value_minutes hfinite hdt hlimit
  rcases le_or_gt 0 y with hnonneg | hneg
  · exact b.fits_of_nonneg hfinite hdt hlimit hy hnonneg
  rcases lt_or_ge dt.scale 14 with hshort | hlong
  · have hlt := toRat_lt_of_scale hdt hshort
    refine b.short_length_le hfinite hdt hlt hy hneg ?_
    have hlow := (hbounds 400 (by decide)).1
    refine le_trans (by norm_num) (hlow ?_)
    have hrest := le_restAfter hdt hlt
    have hlow : (39 * 400 : ℚ) ≤ (b.low * 400 : ℕ) := by
      exact_mod_cast Nat.mul_le_mul_right 400 b.low_ge
    linarith
  · have hcases := restAfter_cases hlong (le_significand_of_scale (by omega)) (significand_lt dt)
    rw [← toRat_of_nonneg hdt] at hcases
    rcases hcases with ⟨-, hrest⟩ | ⟨hexceed, hrest, -, hhours⟩
    · -- what is left is not negative, and the minutes are not either
      have hlow := (hbounds 0 (by decide)).1 (by simpa using hrest)
      rw [Nat.cast_zero, neg_zero] at hlow
      exact absurd hneg (not_lt.2 hlow)
    · obtain ⟨s, hs⟩ := Int.eq_ofNat_of_zero_le (show 0 ≤ dt.scale by omega)
      rw [hs] at hrest hhours
      have hmax : s ≤ b.maxScale := by
        have hle := hscale.resolve_right (not_not.2 hexceed)
        omega
      refine b.fits_of_exceed hfinite hdt hmax (by exact_mod_cast hrest)
        (by exact_mod_cast hhours) hy hneg fun n hn => (hbounds n hn).1

theorem fitsBuffer_iff (skipHour : Bool) :
    FitsBuffer (formatTimeWith (2 + fractionLength precision) precision minutes dt skipHour) ↔
      b.Met dt := by
  have hle : literal 0 ≤ dt := (le_iff value_zero (value_eq_some_iff.2 ⟨hfinite, rfl⟩)).2 hdt
  constructor
  · intro hfits
    by_contra hnot
    rw [Met, not_and_or, not_or, not_not] at hnot
    rcases le_or_gt dt.toRat b.limit with hlimit | hlimit
    · obtain ⟨hscale, hexceed⟩ := hnot.resolve_left (not_not.2 hlimit)
      obtain ⟨hlength, htenth⟩ := b.not_fits_of_exceed hfinite hdt hlimit (not_le.1 hscale) hexceed
      exact not_fitsBuffer_of_length hle skipHour htenth hlength hfits
    · obtain ⟨hlength, htenth⟩ := b.not_fits_of_limit hfinite hdt hlimit
      exact not_fitsBuffer_of_length hle skipHour htenth hlength hfits
  · intro hmet
    exact fitsBuffer_of_length hle skipHour (b.length_le_of_met hfinite hdt hmet)

end double

end Budget

/-- The text of a time fits the buffer as long as the hours have few enough digits and, where they
exceed the time, the negative minutes have few enough digits too. -/
theorem formatTime_fits_iff {dt : Double} (hfinite : dt.exponent.val ≠ 2047) (hdt : literal 0 ≤ dt)
    (skipHour : Bool) :
    (FitsBuffer (formatTimeHhMm dt skipHour) ↔
      dt.toRat ≤ 3600 * ((5820766091346740 + 1 / 2) * 2 ^ 34) ∧
        (dt.scale ≤ 25 ∨ ¬ HoursExceed dt.significand)) ∧
    (FitsBuffer (formatTimeHhMmt dt skipHour) ↔
      dt.toRat ≤ 3600 * ((7450580596923828 + 1 / 2) * 2 ^ 27) ∧
        (dt.scale ≤ 22 ∨ ¬ HoursExceed dt.significand)) := by
  have hnonneg := (le_iff value_zero (value_eq_some_iff.2 ⟨hfinite, rfl⟩)).1 hdt
  exact ⟨hhMmBudget.fitsBuffer_iff hfinite hnonneg skipHour,
    hhMmtBudget.fitsBuffer_iff hfinite hnonneg skipHour⟩

/-- `(225 * 2 ^ 45 + 1) * 2 ^ 25` seconds, whose hours exceed them. -/
theorem formatTime_fits_iff_exceeding :
    FitsBuffer (formatTimeHhMm (⟨false, 1100, 3412884092616705⟩ : Double) false) ∧
      ¬ FitsBuffer (formatTimeHhMmt (⟨false, 1100, 3412884092616705⟩ : Double) false) := by
  have hdt : literal 0 ≤ (⟨false, 1100, 3412884092616705⟩ : Double) := by decide +kernel
  have hiff := formatTime_fits_iff (by decide) hdt false
  refine ⟨hiff.1.2 ⟨by decide +kernel, .inl (by decide)⟩, fun hfits => ?_⟩
  rcases (hiff.2.1 hfits).2 with hscale | hnot
  · exact absurd hscale (by decide)
  · exact hnot (by decide +kernel)

/-- `2 ^ 100` seconds. -/
theorem longTime_overruns :
    (⟨false, 1123, 0⟩ : Double).toRat = 2 ^ 100 ∧ literal 0 ≤ (⟨false, 1123, 0⟩ : Double) ∧
      ¬ FitsBuffer (formatTimeHhMm (⟨false, 1123, 0⟩ : Double) false) ∧
      ¬ FitsBuffer (formatTimeHhMmt (⟨false, 1123, 0⟩ : Double) false) := by
  have hvalue : (⟨false, 1123, 0⟩ : Double).toRat = 2 ^ 100 := by decide +kernel
  refine ⟨hvalue, by decide +kernel, fun hfits => ?_, fun hfits => ?_⟩
  · have hlimit := ((hhMmBudget.fitsBuffer_iff (by decide) (by rw [hvalue]; positivity) false).1
      hfits).1
    exact absurd hlimit (by decide +kernel)
  · have hlimit := ((hhMmtBudget.fitsBuffer_iff (by decide) (by rw [hvalue]; positivity) false).1
      hfits).1
    exact absurd hlimit (by decide +kernel)

end Nanonet
