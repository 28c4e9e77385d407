import Nanonet.Lib.Rounding

/-!
# Whole hours of a rounded time

The hours that are split off a time and what is left of it, with each operation rounded to doubles.
The hours can be rounded up to more than the time: what is left is then minus one unit of the time's
significand. As an hour has `225 * 2 ^ 4` seconds, the significand's hundred and twenty-eightfold
modulo 225 decides whether this happens (`hours_mul_cases`).
-/

namespace Nanonet

/-- The hours that are split off a time. -/
def wholeHours (x : ℚ) : ℤ := ⌊rounded (x / 3600)⌋

/-- What is left of a time after the hours. -/
def restAfter (x : ℚ) : ℚ := rounded (x - rounded (wholeHours x * 3600))

/-- The hours of a long time with the significand `m` make up more than the time. -/
def HoursExceed (m : ℕ) : Prop :=
  225 * 2 ^ 45 ≤ m ∧
    ((113 ≤ 128 * m % 225 ∧ 128 * m % 225 ≤ 160) ∨ (128 * m % 225 = 161 ∧ m % 2 = 1))

instance (m : ℕ) : Decidable (HoursExceed m) := inferInstanceAs (Decidable (_ ∧ _))

section significand

variable {m j : ℕ} {k : ℤ}

theorem rounded_div_hour (hk : -1074 ≤ k) (hlow : 225 * 2 ^ 52 ≤ 2 ^ j * m)
    (hhigh : 2 ^ j * m < 225 * 2 ^ 53) :
    ∃ n : ℤ, 2 ^ 52 ≤ n ∧ n ≤ 2 ^ 53 ∧ |225 * n - 2 ^ j * m| ≤ 112 ∧
      rounded (m * 2 ^ (k + (4 + j : ℕ)) / 3600) = n * 2 ^ k := by
  have hunit : (0 : ℚ) < 2 ^ k := by positivity
  have hquot : (m : ℚ) * 2 ^ (k + (4 + j : ℕ)) / 3600 = 2 ^ j * m / 225 * 2 ^ k := by
    rw [two_zpow_add, pow_add]
    ring
  have hlow' : (2 : ℚ) ^ 52 ≤ 2 ^ j * m / 225 := by
    rw [le_div_iff₀ (by norm_num), mul_comm]
    exact_mod_cast hlow
  have hhigh' : (2 : ℚ) ^ j * m / 225 < 2 ^ 53 := by
    rw [div_lt_iff₀ (by norm_num), mul_comm _ (225 : ℚ)]
    exact_mod_cast hhigh
  have hrounded : rounded (2 ^ j * m / 225 * 2 ^ k) = roundHalfEven (2 ^ j * m / 225) * 2 ^ k := by
    have hscaled : (2 : ℚ) ^ j * m / 225 * 2 ^ k * 2 ^ (-k) = 2 ^ j * m / 225 := by
      rw [zpow_neg, mul_inv_cancel_right₀ hunit.ne']
    have hbelow : 2 ^ (k + 52) ≤ (2 : ℚ) ^ j * m / 225 * 2 ^ k := by
      refine (two_zpow_add k 52).trans_le ?_
      gcongr
    have habove : (2 : ℚ) ^ j * m / 225 * 2 ^ k < 2 ^ (k + 53) := by
      refine lt_of_lt_of_eq ?_ (two_zpow_add k 53).symm
      gcongr
    rw [rounded_eq hk hbelow habove, hscaled]
  refine ⟨roundHalfEven (2 ^ j * m / 225), ?_, ?_, ?_, by rw [hquot, hrounded]⟩
  · exact le_roundHalfEven (by exact_mod_cast hlow')
  · exact roundHalfEven_le (by exact_mod_cast hhigh'.le)
  · -- half a unit of the quotient is 112.5 of the dividend
    have herror := abs_roundHalfEven_sub_le ((2 : ℚ) ^ j * m / 225)
    have hscaled : |((225 * roundHalfEven (2 ^ j * m / 225) - 2 ^ j * m : ℤ) : ℚ)| < (113 : ℤ) := by
      push_cast
      rw [abs_le] at herror
      rw [abs_lt]
      constructor <;> linarith
    rw [← Int.cast_abs, Int.cast_lt] at hscaled
    omega

theorem hours_mul_eq {n : ℤ} {e : ℤ} (he : 225 * n - 2 ^ j * m = e) :
    (n * 2 ^ k * 3600 : ℚ) = (m + e / 2 ^ j) * 2 ^ (k + (4 + j : ℕ)) := by
  have hcast : (225 * n - 2 ^ j * m : ℚ) = e := by exact_mod_cast he
  have hn : (n : ℚ) = (2 ^ j * m + e) / 225 := by linarith
  rw [hn, two_zpow_add, pow_add]
  field_simp
  ring

end significand

theorem mod_hour {m : ℕ} {a r : ℤ} (h : 2 ^ 7 * m = r + 225 * a) (hr : 0 ≤ r) (hr' : r < 225) :
    ((128 * m % 225 : ℕ) : ℤ) = r := by
  push_cast
  norm_num at h
  rw [h, Int.add_mul_emod_self_left, Int.emod_eq_of_lt hr hr']

theorem hoursExceed_iff {m : ℕ} {n e : ℤ} (hlarge : 225 * 2 ^ 45 ≤ m) (he : 225 * n - 2 ^ 7 * m = e)
    (hpos : 0 < e) (hle : e ≤ 112) : HoursExceed m ↔ 64 < e ∨ (e = 64 ∧ m % 2 = 1) := by
  have hmod := mod_hour (m := m) (a := n - 1) (r := 225 - e) (by omega) (by omega) (by omega)
  rw [HoursExceed, and_iff_right hlarge]
  generalize 128 * m % 225 = r at hmod
  clear hlarge he
  omega

theorem roundsUp_iff {m j : ℕ} {n e : ℤ} (hj : j = if 225 * 2 ^ 45 ≤ m then 7 else 8)
    (he : 225 * n - 2 ^ j * m = e) (hpos : 0 < e) (hle : e ≤ 112) :
    (1 / 2 < (e : ℚ) / 2 ^ j ∨ ((e : ℚ) / 2 ^ j = 1 / 2 ∧ m % 2 = 1)) ↔ HoursExceed m := by
  split_ifs at hj with hlarge
  · subst hj
    have hlt : 1 / 2 < (e : ℚ) / 2 ^ 7 ↔ 64 < e := by
      rw [div_lt_div_iff₀ (by norm_num) (by norm_num), ← Int.cast_lt (R := ℚ)]
      constructor <;> intro h <;> norm_num at h ⊢ <;> linarith
    have heq : (e : ℚ) / 2 ^ 7 = 1 / 2 ↔ e = 64 := by
      rw [div_eq_div_iff (by norm_num) (by norm_num), ← @Int.cast_inj ℚ]
      constructor <;> intro h <;> norm_num at h ⊢ <;> linarith
    rw [hlt, heq, hoursExceed_iff hlarge he hpos hle]
  · subst hj
    have hsmall : (e : ℚ) / 2 ^ 8 < 1 / 2 := by
      have hcast : (e : ℚ) ≤ 112 := by exact_mod_cast hle
      rw [div_lt_div_iff₀ (by norm_num) (by norm_num)]
      linarith
    have hnot : ¬ HoursExceed m := fun h => hlarge h.1
    simp only [hnot, hsmall.ne, not_lt.2 hsmall.le, false_and, or_self]

theorem not_hoursExceed {m j : ℕ} {n e : ℤ} (hj : j = if 225 * 2 ^ 45 ≤ m then 7 else 8)
    (he : 225 * n - 2 ^ j * m = e) (hneg : e ≤ 0) (hge : -112 ≤ e) : ¬ HoursExceed m := by
  rintro ⟨hlarge, hres⟩
  rw [if_pos hlarge] at hj
  subst hj
  have hmod := mod_hour (m := m) (a := n) (r := -e) (by omega) (by omega) (by omega)
  omega

theorem roundedBy_lt_one {m j : ℕ} {e : ℤ} (hj : j = if 225 * 2 ^ 45 ≤ m then 7 else 8)
    (hle : e ≤ 112) : (e : ℚ) / 2 ^ j < 1 := by
  have hj7 : 7 ≤ j := by
    rw [hj]
    split_ifs <;> decide
  have hpow : (2 : ℤ) ^ 7 ≤ 2 ^ j := pow_le_pow_right₀ (by norm_num) hj7
  have hlt : e < 2 ^ j := by omega
  rw [div_lt_one (by positivity)]
  exact_mod_cast hlt

section long

variable {m : ℕ} {s : ℤ} (hs : 14 ≤ s) (hm : 2 ^ 52 ≤ m) (hm' : m < 2 ^ 53)

include hs hm hm'

theorem exists_hours : ∃ (j : ℕ) (n : ℤ),
    j = (if 225 * 2 ^ 45 ≤ m then 7 else 8) ∧ 2 ^ 52 ≤ n ∧ n ≤ 2 ^ 53 ∧
      |225 * n - 2 ^ j * m| ≤ 112 ∧ (wholeHours (m * 2 ^ s) : ℚ) = n * 2 ^ (s - (4 + j : ℕ)) := by
  obtain ⟨j, hj, hlow, hhigh⟩ : ∃ j : ℕ, j = (if 225 * 2 ^ 45 ≤ m then 7 else 8) ∧
      225 * 2 ^ 52 ≤ 2 ^ j * m ∧ 2 ^ j * m < 225 * 2 ^ 53 := by
    refine ⟨_, rfl, ?_⟩
    split_ifs <;> omega
  have hj8 : j ≤ 8 := by
    rw [hj]
    split_ifs <;> decide
  obtain ⟨n, hn, hn', herror, hquot⟩ :=
    rounded_div_hour (k := s - (4 + j : ℕ)) (by omega) hlow hhigh
  rw [sub_add_cancel] at hquot
  obtain ⟨a, ha⟩ := Int.eq_ofNat_of_zero_le (show 0 ≤ s - (4 + j : ℕ) by omega)
  refine ⟨j, n, hj, hn, hn', herror, ?_⟩
  rw [wholeHours, hquot, ha]
  have hint : (n : ℚ) * 2 ^ (a : ℤ) = (n * 2 ^ a : ℤ) := by
    push_cast
    rw [zpow_natCast]
  rw [hint, Int.floor_intCast]

theorem hours_mul_cases :
    (¬ HoursExceed m ∧ rounded (wholeHours (m * 2 ^ s) * 3600) ≤ m * 2 ^ s) ∨
      (HoursExceed m ∧ rounded (wholeHours (m * 2 ^ s) * 3600) = (m + 1) * 2 ^ s ∧
        2 ^ (s + 41) ≤ (wholeHours (m * 2 ^ s) : ℚ) ∧
        (wholeHours (m * 2 ^ s) : ℚ) ≤ 2 ^ (s + 42)) := by
  obtain ⟨j, n, hj, hn, hn', herror, hhours⟩ := exists_hours hs hm hm'
  generalize he : 225 * n - 2 ^ j * m = e at herror
  have hmul := hours_mul_eq (k := s - (4 + j : ℕ)) he
  rw [sub_add_cancel] at hmul
  rw [hhours, hmul]
  rcases le_or_gt e 0 with hneg | hpos
  · left
    have hunit : (0 : ℚ) < 2 ^ s := by positivity
    constructor
    · exact not_hoursExceed hj he hneg (abs_le.1 herror).1
    · refine rounded_le (m := m) (by omega) (by omega) ?_
      rw [Int.cast_natCast]
      have hquot : (e : ℚ) / 2 ^ j ≤ 0 :=
        div_nonpos_of_nonpos_of_nonneg (Int.cast_nonpos.2 hneg) (by positivity)
      gcongr
      linarith
  · have hle : e ≤ 112 := le_of_abs_le herror
    rw [rounded_add (by omega) hm hm' (by positivity) (roundedBy_lt_one hj hle)]
    simp only [roundsUp_iff hj he hpos hle]
    by_cases hexceed : HoursExceed m
    · right
      rw [if_pos hexceed.1] at hj
      subst hj
      have hpow (a : ℕ) : (2 : ℚ) ^ (s - (4 + 7 : ℕ) + a) = 2 ^ a * 2 ^ (s - (4 + 7 : ℕ)) :=
        two_zpow_add _ a
      have hlow : (2 : ℚ) ^ 52 ≤ n := by exact_mod_cast hn
      have hhigh : (n : ℚ) ≤ 2 ^ 53 := by exact_mod_cast hn'
      refine ⟨hexceed, by rw [if_pos hexceed], ?_, ?_⟩
      · rw [show s + 41 = s - (4 + 7 : ℕ) + (52 : ℕ) by push_cast; ring, hpow]
        gcongr
      · rw [show s + 42 = s - (4 + 7 : ℕ) + (53 : ℕ) by push_cast; ring, hpow]
        gcongr
    · left
      simp only [hexceed, if_false, not_false_eq_true, le_refl, and_self]

/-- What is left of a long time is not negative, or minus one unit of the time's significand. -/
theorem restAfter_cases :
    (¬ HoursExceed m ∧ 0 ≤ restAfter (m * 2 ^ s)) ∨
      (HoursExceed m ∧ restAfter (m * 2 ^ s) = -2 ^ s ∧
        2 ^ (s + 41) ≤ (wholeHours (m * 2 ^ s) : ℚ) ∧
        (wholeHours (m * 2 ^ s) : ℚ) ≤ 2 ^ (s + 42)) := by
  rcases hours_mul_cases hs hm hm' with ⟨hnot, hle⟩ | ⟨hexceed, heq, hbounds⟩
  · exact .inl ⟨hnot, rounded_nonneg (sub_nonneg.2 hle)⟩
  · refine .inr ⟨hexceed, ?_, hbounds⟩
    have hunit : (m : ℚ) * 2 ^ s - (m + 1) * 2 ^ s = (-1 : ℤ) * 2 ^ s := by
      push_cast
      ring
    rw [restAfter, heq, hunit, rounded_representable (by omega) (by decide)]
    push_cast
    ring

end long

section bounds

variable {x : ℚ} (hx : 0 ≤ x)

include hx

theorem wholeHours_nonneg : 0 ≤ wholeHours x :=
  Int.floor_nonneg.2 (rounded_nonneg (div_nonneg hx (by norm_num)))

theorem rounded_wholeHours : rounded (wholeHours x) = wholeHours x :=
  rounded_floor (div_nonneg hx (by norm_num))

omit hx in
theorem wholeHours_le {n : ℕ} (h : x ≤ 3600 * 2 ^ n) : (wholeHours x : ℚ) ≤ 2 ^ n := by
  have hquot : x / 3600 ≤ 2 ^ n := by
    rw [div_le_iff₀ (by norm_num), mul_comm]
    exact h
  exact (Int.floor_le _).trans (rounded_le_two_pow hquot)

/-- The product of the hours is of no larger order of magnitude than the time. -/
theorem abs_hours_mul_le (h : x ≤ 2 ^ 99) : |(wholeHours x * 3600 : ℚ)| ≤ 2 ^ 100 := by
  have hhours0 : (0 : ℚ) ≤ wholeHours x := Int.cast_nonneg (wholeHours_nonneg hx)
  have hhours := wholeHours_le (n := 88) (h.trans (by norm_num))
  rw [abs_of_nonneg (by positivity)]
  linarith

theorem abs_sub_hours_mul_le (h : x ≤ 2 ^ 99) : |x - rounded (wholeHours x * 3600)| ≤ 2 ^ 100 := by
  have hhours0 : (0 : ℚ) ≤ wholeHours x := Int.cast_nonneg (wholeHours_nonneg hx)
  have hmul0 : 0 ≤ rounded (wholeHours x * 3600) := rounded_nonneg (by positivity)
  have hmul := le_of_abs_le (abs_rounded_le_two_pow (abs_hours_mul_le hx h))
  rw [abs_le]
  constructor <;> linarith

/-- The errors of a short time, of the quotient and of the product with an hour, are small. -/
theorem le_restAfter (h : x < 2 ^ 66) : -15392 ≤ restAfter x := by
  have hquot0 : 0 ≤ x / 3600 := by positivity
  have hquot : |rounded (x / 3600) - x / 3600| ≤ 2 ^ (2 : ℤ) / 2 := by
    refine abs_rounded_sub_le (by norm_num) ?_
    rw [abs_of_nonneg hquot0, div_lt_iff₀ (by norm_num)]
    norm_num
    linarith
  have hhours : (wholeHours x : ℚ) ≤ x / 3600 + 2 := by
    have hfloor : (wholeHours x : ℚ) ≤ rounded (x / 3600) := Int.floor_le _
    rw [abs_le] at hquot
    norm_num at hquot
    linarith
  have hhours0 : (0 : ℚ) ≤ wholeHours x := Int.cast_nonneg (wholeHours_nonneg hx)
  have hmul : |rounded (wholeHours x * 3600) - wholeHours x * 3600| ≤ 2 ^ (14 : ℤ) / 2 := by
    refine abs_rounded_sub_le (by norm_num) ?_
    rw [abs_of_nonneg (by positivity)]
    norm_num
    linarith
  have hrest : ((-15392 : ℤ) : ℚ) ≤ restAfter x := by
    refine intCast_le_rounded (by norm_num) ?_
    rw [abs_le] at hmul
    norm_num at hmul ⊢
    linarith
  exact_mod_cast hrest

end bounds

end Nanonet
