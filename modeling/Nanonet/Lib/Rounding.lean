import Mathlib.Tactic.Linarith
import Mathlib.Tactic.Positivity
import Mathlib.Tactic.Ring
import Nanonet.Lib.Double

/-!
# Rounding to doubles

The rational number that the nearest double to a rational number stands for, and the rules to bound
it by: a bound of at most 53 significant bits is kept (`rounded_le`, `le_rounded`), the error is half
a unit in the last place (`abs_rounded_sub_le`), and where the binary order of magnitude is known the
result is the nearest integer to the number in that unit (`rounded_eq`). Between two doubles the
middle decides (`rounded_add`), and the integer part of a double is a double (`rounded_floor`).
-/

namespace Nanonet

/-! ### The nearest integer -/

theorem roundHalfEven_le_iff (q : ℚ) (n : ℤ) :
    roundHalfEven q ≤ n ↔ q < n + 1 / 2 ∨ (q = n + 1 / 2 ∧ n % 2 = 0) := by
  have hle := Int.floor_le q
  have hlt := Int.lt_floor_add_one q
  have hfloor (h : q ≤ n + 1 / 2) : ⌊q⌋ ≤ n := by
    have hcast : (⌊q⌋ : ℚ) < (n + 1 : ℤ) := by
      push_cast
      linarith
    have hint := Int.cast_lt.1 hcast
    omega
  unfold roundHalfEven
  dsimp only
  split_ifs with hup
  · constructor
    · intro h
      have hcast : ((⌊q⌋ + 1 : ℤ) : ℚ) ≤ n := Int.cast_le.2 h
      push_cast at hcast
      exact .inl (by linarith)
    · intro h
      have hq : q ≤ n + 1 / 2 := h.elim le_of_lt fun h => h.1.le
      have hne : ⌊q⌋ ≠ n := by
        rintro heq
        rw [heq] at hup
        rcases h with h | ⟨h, heven⟩
        · rcases hup with hup | ⟨hup, -⟩ <;> linarith
        · rcases hup with hup | ⟨-, hodd⟩
          · linarith
          · omega
      have hfl := hfloor hq
      omega
  · rw [not_or, not_lt, not_and] at hup
    constructor
    · intro h
      rcases h.lt_or_eq with hlt' | rfl
      · have hcast : ((⌊q⌋ + 1 : ℤ) : ℚ) ≤ n := Int.cast_le.2 (by omega)
        push_cast at hcast
        exact .inl (by linarith)
      · rcases hup.1.lt_or_eq with hr | hr
        · exact .inl (by linarith)
        · exact .inr ⟨by linarith, by have := hup.2 hr; omega⟩
    · exact fun h => hfloor (h.elim le_of_lt fun h => h.1.le)

theorem roundHalfEven_le {q : ℚ} {n : ℤ} (h : q ≤ n) : roundHalfEven q ≤ n :=
  (roundHalfEven_le_iff q n).2 (.inl (by linarith))

theorem le_roundHalfEven {q : ℚ} {n : ℤ} (h : (n : ℚ) ≤ q) : n ≤ roundHalfEven q := by
  by_contra hlt
  have hle : roundHalfEven q ≤ n - 1 := by omega
  rw [roundHalfEven_le_iff] at hle
  push_cast at hle
  rcases hle with hle | ⟨hle, -⟩ <;> linarith

theorem roundHalfEven_mono {q q' : ℚ} (h : q ≤ q') : roundHalfEven q ≤ roundHalfEven q' := by
  rw [roundHalfEven_le_iff]
  rcases (roundHalfEven_le_iff q' _).1 le_rfl with hlt | ⟨heq, heven⟩
  · exact .inl (h.trans_lt hlt)
  · exact (h.trans_eq heq).lt_or_eq.imp_right fun hq => ⟨hq, heven⟩

theorem abs_roundHalfEven_sub_le (q : ℚ) : |(roundHalfEven q : ℚ) - q| ≤ 1 / 2 := by
  have hle := Int.floor_le q
  have hlt := Int.lt_floor_add_one q
  unfold roundHalfEven
  dsimp only
  split_ifs with hup
  · have hhalf : 1 / 2 ≤ q - ⌊q⌋ := hup.elim le_of_lt fun h => h.1.ge
    push_cast
    rw [abs_le]
    constructor <;> linarith
  · have hhalf := not_lt.1 (not_or.1 hup).1
    rw [abs_le]
    constructor <;> linarith

theorem roundHalfAway_le {q : ℚ} {n : ℤ} (h : q ≤ n) : roundHalfAway q ≤ n := by
  unfold roundHalfAway
  split_ifs
  · have hfloor : ⌊q + 1 / 2⌋ < n + 1 := by
      rw [Int.floor_lt]
      push_cast
      linarith
    omega
  · exact Int.ceil_le.2 (by linarith)

theorem le_roundHalfAway {q : ℚ} {n : ℤ} (h : (n : ℚ) ≤ q) : n ≤ roundHalfAway q := by
  unfold roundHalfAway
  split_ifs
  · exact Int.le_floor.2 (by linarith)
  · have hceil : n - 1 < ⌈q - 1 / 2⌉ := by
      rw [Int.lt_ceil]
      push_cast
      linarith
    omega

theorem roundHalfAway_intCast (n : ℤ) : roundHalfAway n = n :=
  le_antisymm (roundHalfAway_le le_rfl) (le_roundHalfAway le_rfl)

/-! ### The nearest double -/

/-- The exponent of the unit in the last place. -/
def lastPlace (q : ℚ) : ℤ := max (Int.log 2 |q|) (-1022) - 52

/-- What the nearest double to `q` stands for, if there is a finite one. -/
def rounded (q : ℚ) : ℚ :=
  (if q < 0 then -1 else 1) * (roundHalfEven (|q| * 2 ^ (-lastPlace q)) * 2 ^ lastPlace q)

theorem rounded_zero : rounded 0 = 0 := by
  simp [rounded, roundHalfEven]

theorem rounded_neg (q : ℚ) : rounded (-q) = -rounded q := by
  have hplace : lastPlace (-q) = lastPlace q := by rw [lastPlace, lastPlace, abs_neg]
  rcases lt_trichotomy q 0 with h | rfl | h
  · rw [rounded, rounded, hplace, abs_neg, if_pos h, if_neg (by linarith), neg_one_mul, neg_neg,
      one_mul]
  · simp [rounded_zero]
  · rw [rounded, rounded, hplace, abs_neg, if_neg (by linarith : ¬ q < 0), if_pos (by linarith),
      neg_one_mul, one_mul]

theorem le_lastPlace (q : ℚ) : -1074 ≤ lastPlace q := by
  unfold lastPlace
  omega

section positive

variable {q : ℚ}

theorem rounded_of_pos (hq : 0 < q) :
    rounded q = roundHalfEven (q * 2 ^ (-lastPlace q)) * 2 ^ lastPlace q := by
  rw [rounded, if_neg (not_lt.2 hq.le), one_mul, abs_of_pos hq]

theorem lt_two_zpow_lastPlace (hq : 0 < q) : q < 2 ^ (lastPlace q + 53) := by
  have hlog : q < 2 ^ (Int.log 2 q + 1) := Int.lt_zpow_succ_log_self (by norm_num) q
  refine hlog.trans_le (zpow_le_zpow_right₀ (by norm_num) ?_)
  rw [lastPlace, abs_of_pos hq]
  omega

theorem two_zpow_lastPlace_le (hq : 0 < q) (hplace : -1074 < lastPlace q) :
    2 ^ (lastPlace q + 52) ≤ q := by
  have heq : lastPlace q + 52 = Int.log 2 q := by
    rw [lastPlace, abs_of_pos hq] at *
    omega
  rw [heq]
  exact Int.zpow_log_le_self (by norm_num) hq

theorem lastPlace_le {k : ℤ} (hq : 0 < q) (hk : -1074 ≤ k) (h : q < 2 ^ (k + 53)) :
    lastPlace q ≤ k := by
  by_contra hlt
  have hpow := (two_zpow_lastPlace_le hq (by omega)).trans_lt h
  have hexp := (zpow_lt_zpow_iff_right₀ (by norm_num : (1 : ℚ) < 2)).1 hpow
  omega

/-- The significand has at most 53 bits, or is the next power of two. -/
theorem significand_le (hq : 0 < q) : roundHalfEven (q * 2 ^ (-lastPlace q)) ≤ 2 ^ 53 := by
  have hunit : (0 : ℚ) < 2 ^ lastPlace q := by positivity
  refine roundHalfEven_le ?_
  rw [zpow_neg, ← div_eq_mul_inv, div_le_iff₀ hunit]
  have hlt := lt_two_zpow_lastPlace hq
  rw [zpow_add₀ (by norm_num), mul_comm] at hlt
  exact_mod_cast hlt.le

theorem le_significand (hq : 0 < q) (hplace : -1074 < lastPlace q) :
    2 ^ 52 ≤ roundHalfEven (q * 2 ^ (-lastPlace q)) := by
  have hunit : (0 : ℚ) < 2 ^ lastPlace q := by positivity
  refine le_roundHalfEven ?_
  rw [zpow_neg, ← div_eq_mul_inv, le_div_iff₀ hunit]
  have hle := two_zpow_lastPlace_le hq hplace
  rw [zpow_add₀ (by norm_num), mul_comm] at hle
  exact_mod_cast hle

theorem rounded_eq {k : ℤ} (hk : -1074 ≤ k) (hlow : 2 ^ (k + 52) ≤ q) (hhigh : q < 2 ^ (k + 53)) :
    rounded q = roundHalfEven (q * 2 ^ (-k)) * 2 ^ k := by
  have hq : 0 < q := lt_of_lt_of_le (by positivity) hlow
  have hle := lastPlace_le hq hk hhigh
  have hge : k ≤ lastPlace q := by
    have hpow := hlow.trans_lt (lt_two_zpow_lastPlace hq)
    have hexp := (zpow_lt_zpow_iff_right₀ (by norm_num : (1 : ℚ) < 2)).1 hpow
    omega
  rw [rounded_of_pos hq, le_antisymm hle hge]

theorem abs_rounded_sub_le_of_pos {k : ℤ} (hq : 0 < q) (hk : -1074 ≤ k) (h : q < 2 ^ (k + 53)) :
    |rounded q - q| ≤ 2 ^ k / 2 := by
  have hle := lastPlace_le hq hk h
  have hunit : (0 : ℚ) < 2 ^ lastPlace q := by positivity
  have hscale : q * 2 ^ (-lastPlace q) * 2 ^ lastPlace q = q := by
    rw [mul_assoc, ← zpow_add₀ (by norm_num), neg_add_cancel, zpow_zero, mul_one]
  have herror : |rounded q - q| = |(roundHalfEven (q * 2 ^ (-lastPlace q)) : ℚ) -
      q * 2 ^ (-lastPlace q)| * 2 ^ lastPlace q := by
    rw [rounded_of_pos hq, ← abs_of_pos hunit, ← abs_mul, sub_mul, abs_of_pos hunit, hscale]
  calc |rounded q - q| ≤ 1 / 2 * 2 ^ lastPlace q := by
        rw [herror]
        exact mul_le_mul_of_nonneg_right (abs_roundHalfEven_sub_le _) hunit.le
    _ ≤ 1 / 2 * 2 ^ k := by
        gcongr
        norm_num
    _ = 2 ^ k / 2 := by ring

theorem exists_units {m : ℕ} {k : ℤ} (h : lastPlace q ≤ k) :
    ∃ n : ℕ, (m : ℚ) * 2 ^ k = n * 2 ^ lastPlace q := by
  obtain ⟨d, hd⟩ := Int.le.dest h
  refine ⟨m * 2 ^ d, ?_⟩
  rw [← hd, zpow_add₀ (by norm_num), zpow_natCast]
  push_cast
  ring

theorem rounded_le_units {n : ℕ} (hq : 0 < q) (h : q ≤ n * 2 ^ lastPlace q) :
    rounded q ≤ n * 2 ^ lastPlace q := by
  have hunit : (0 : ℚ) < 2 ^ lastPlace q := by positivity
  have hscaled : q * 2 ^ (-lastPlace q) ≤ (n : ℤ) := by
    rw [zpow_neg, ← div_eq_mul_inv, div_le_iff₀ hunit]
    exact_mod_cast h
  rw [rounded_of_pos hq]
  refine mul_le_mul_of_nonneg_right ?_ hunit.le
  exact_mod_cast roundHalfEven_le hscaled

theorem units_le_rounded {n : ℕ} (hq : 0 < q) (h : n * 2 ^ lastPlace q ≤ q) :
    n * 2 ^ lastPlace q ≤ rounded q := by
  have hunit : (0 : ℚ) < 2 ^ lastPlace q := by positivity
  have hscaled : ((n : ℤ) : ℚ) ≤ q * 2 ^ (-lastPlace q) := by
    rw [zpow_neg, ← div_eq_mul_inv, le_div_iff₀ hunit]
    exact_mod_cast h
  rw [rounded_of_pos hq]
  refine mul_le_mul_of_nonneg_right ?_ hunit.le
  exact_mod_cast le_roundHalfEven hscaled

theorem two_zpow_add (k : ℤ) (n : ℕ) : (2 : ℚ) ^ (k + n) = 2 ^ n * 2 ^ k := by
  rw [zpow_add₀ (by norm_num), zpow_natCast, mul_comm]

theorem mul_two_zpow_le {m : ℕ} {k u : ℤ} (hm : m ≤ 2 ^ 53) (hlt : k < u) :
    (m : ℚ) * 2 ^ k ≤ 2 ^ (u + 52) := by
  have hcast : (m : ℚ) ≤ 2 ^ 53 := by exact_mod_cast hm
  calc (m : ℚ) * 2 ^ k ≤ 2 ^ 53 * 2 ^ k := by gcongr
    _ = 2 ^ (k + 53) := by
        rw [zpow_add₀ (by norm_num), mul_comm]
        norm_cast
    _ ≤ 2 ^ (u + 52) := zpow_le_zpow_right₀ (by norm_num) (by omega)

theorem rounded_le_of_pos {m : ℕ} {k : ℤ} (hq : 0 < q) (hk : -1074 ≤ k) (hm : m ≤ 2 ^ 53)
    (h : q ≤ m * 2 ^ k) : rounded q ≤ m * 2 ^ k := by
  rcases le_or_gt (lastPlace q) k with hle | hlt
  · obtain ⟨n, hn⟩ := exists_units (q := q) (m := m) hle
    rw [hn] at h ⊢
    exact rounded_le_units hq h
  · -- the number is the power of two that its unit belongs to
    have hpow : 2 ^ (lastPlace q + 52) ≤ q := two_zpow_lastPlace_le hq (by omega)
    have hunits : (2 : ℚ) ^ (lastPlace q + 52) = (2 ^ 52 : ℕ) * 2 ^ lastPlace q := by
      exact_mod_cast two_zpow_add (lastPlace q) 52
    have hle := h.trans (mul_two_zpow_le hm hlt)
    refine le_trans ?_ (hpow.trans h)
    rw [hunits] at hle ⊢
    exact rounded_le_units hq hle

theorem le_rounded_of_pos {m : ℕ} {k : ℤ} (hq : 0 < q) (hk : -1074 ≤ k) (hm : m ≤ 2 ^ 53)
    (h : m * 2 ^ k ≤ q) : m * 2 ^ k ≤ rounded q := by
  rcases le_or_gt (lastPlace q) k with hle | hlt
  · obtain ⟨n, hn⟩ := exists_units (q := q) (m := m) hle
    rw [hn] at h ⊢
    exact units_le_rounded hq h
  · have hpow : 2 ^ (lastPlace q + 52) ≤ q := two_zpow_lastPlace_le hq (by omega)
    have hunits : (2 : ℚ) ^ (lastPlace q + 52) = (2 ^ 52 : ℕ) * 2 ^ lastPlace q := by
      exact_mod_cast two_zpow_add (lastPlace q) 52
    refine (mul_two_zpow_le hm hlt).trans ?_
    rw [hunits] at hpow ⊢
    exact units_le_rounded hq hpow

end positive

theorem rounded_nonneg {q : ℚ} (hq : 0 ≤ q) : 0 ≤ rounded q := by
  rcases hq.eq_or_lt with rfl | hpos
  · exact rounded_zero.ge
  · have h := le_rounded_of_pos (m := 0) (k := 0) hpos (by norm_num) (by norm_num) (by simpa using hq)
    simpa using h

/-- A bound that a double stands for is one after rounding as well. -/
theorem rounded_le {q : ℚ} {m : ℤ} {k : ℤ} (hk : -1074 ≤ k) (hm : m.natAbs ≤ 2 ^ 53)
    (h : q ≤ m * 2 ^ k) : rounded q ≤ m * 2 ^ k := by
  have hunit : (0 : ℚ) < 2 ^ k := by positivity
  rcases Int.natAbs_eq m with hnat | hnat
  · rw [hnat, Int.cast_natCast] at h ⊢
    rcases le_or_gt q 0 with hq | hq
    · have hneg := rounded_nonneg (neg_nonneg.2 hq)
      rw [rounded_neg] at hneg
      have hbound : (0 : ℚ) ≤ m.natAbs * 2 ^ k := by positivity
      linarith
    · exact rounded_le_of_pos hq hk hm h
  · rw [hnat, Int.cast_neg, Int.cast_natCast, neg_mul] at h ⊢
    rcases Nat.eq_zero_or_pos m.natAbs with hzero | hpos
    · rw [hzero] at h ⊢
      have hneg := rounded_nonneg (q := -q) (by simpa using h)
      rw [rounded_neg] at hneg
      simpa using hneg
    · have hq : 0 < -q := by
        have hbound : (0 : ℚ) < m.natAbs * 2 ^ k := by positivity
        linarith
      have hle := le_rounded_of_pos hq hk hm (by linarith)
      rw [rounded_neg] at hle
      linarith

theorem le_rounded {q : ℚ} {m : ℤ} {k : ℤ} (hk : -1074 ≤ k) (hm : m.natAbs ≤ 2 ^ 53)
    (h : m * 2 ^ k ≤ q) : m * 2 ^ k ≤ rounded q := by
  have hneg := rounded_le (q := -q) (m := -m) hk (by rwa [Int.natAbs_neg])
    (by push_cast; linarith)
  rw [rounded_neg] at hneg
  push_cast at hneg
  linarith

theorem rounded_representable {m k : ℤ} (hk : -1074 ≤ k) (hm : m.natAbs ≤ 2 ^ 53) :
    rounded (m * 2 ^ k) = m * 2 ^ k :=
  le_antisymm (rounded_le hk hm le_rfl) (le_rounded hk hm le_rfl)

theorem rounded_le_intCast {q : ℚ} {n : ℤ} (hn : n.natAbs ≤ 2 ^ 53) (h : q ≤ n) : rounded q ≤ n := by
  simpa using rounded_le (k := 0) (by norm_num) hn (by simpa using h)

theorem intCast_le_rounded {q : ℚ} {n : ℤ} (hn : n.natAbs ≤ 2 ^ 53) (h : (n : ℚ) ≤ q) :
    n ≤ rounded q := by
  simpa using le_rounded (k := 0) (by norm_num) hn (by simpa using h)

theorem rounded_intCast {n : ℤ} (hn : n.natAbs ≤ 2 ^ 53) : rounded n = n :=
  le_antisymm (rounded_le_intCast hn le_rfl) (intCast_le_rounded hn le_rfl)

theorem rounded_le_two_pow {q : ℚ} {n : ℕ} (h : q ≤ 2 ^ n) : rounded q ≤ 2 ^ n := by
  simpa using rounded_le (m := 1) (k := n) (by omega) (by norm_num) (by simpa using h)

theorem abs_rounded_le_two_pow {q : ℚ} {n : ℕ} (h : |q| ≤ 2 ^ n) : |rounded q| ≤ 2 ^ n := by
  obtain ⟨hlow, hhigh⟩ := abs_le.1 h
  have hneg := rounded_le_two_pow (neg_le.1 hlow)
  rw [rounded_neg] at hneg
  exact abs_le.2 ⟨neg_le.1 hneg, rounded_le_two_pow hhigh⟩

theorem abs_roundHalfAway_le_two_pow {q : ℚ} {n : ℕ} (h : |q| ≤ 2 ^ n) :
    |(roundHalfAway q : ℚ)| ≤ 2 ^ n := by
  obtain ⟨hlow, hhigh⟩ := abs_le.1 h
  have hlow' : -2 ^ n ≤ roundHalfAway q := le_roundHalfAway (by exact_mod_cast hlow)
  have hhigh' : roundHalfAway q ≤ 2 ^ n := roundHalfAway_le (by exact_mod_cast hhigh)
  exact abs_le.2 ⟨by exact_mod_cast hlow', by exact_mod_cast hhigh'⟩

theorem abs_rounded_sub_le {q : ℚ} {k : ℤ} (hk : -1074 ≤ k) (h : |q| < 2 ^ (k + 53)) :
    |rounded q - q| ≤ 2 ^ k / 2 := by
  rcases lt_trichotomy q 0 with hq | rfl | hq
  · have hpos := abs_rounded_sub_le_of_pos (neg_pos.2 hq) hk (by rwa [← abs_of_neg hq])
    rw [rounded_neg, ← abs_neg] at hpos
    have heq : rounded q - q = -(-rounded q - -q) := by ring
    rwa [heq]
  · rw [rounded_zero, sub_zero, abs_zero]
    positivity
  · exact abs_rounded_sub_le_of_pos hq hk (by rwa [← abs_of_pos hq])

theorem exists_rounded_eq (q : ℚ) :
    ∃ m k : ℤ, -1074 ≤ k ∧ m.natAbs ≤ 2 ^ 53 ∧ rounded q = m * 2 ^ k := by
  rcases lt_trichotomy q 0 with hq | rfl | hq
  · have hpos : 0 < -q := neg_pos.2 hq
    have hlow : 0 ≤ roundHalfEven (-q * 2 ^ (-lastPlace (-q))) :=
      le_roundHalfEven (by rw [Int.cast_zero]; positivity)
    have hhigh := significand_le hpos
    refine ⟨-roundHalfEven (-q * 2 ^ (-lastPlace (-q))), lastPlace (-q), le_lastPlace _,
      by omega, ?_⟩
    have hneg : rounded q = -rounded (-q) := by rw [rounded_neg, neg_neg]
    rw [hneg, rounded_of_pos hpos, Int.cast_neg]
    exact (neg_mul _ _).symm
  · exact ⟨0, 0, by norm_num, by norm_num, by rw [rounded_zero, Int.cast_zero, zero_mul]⟩
  · have hlow : 0 ≤ roundHalfEven (q * 2 ^ (-lastPlace q)) :=
      le_roundHalfEven (by rw [Int.cast_zero]; positivity)
    have hhigh := significand_le hq
    exact ⟨_, lastPlace q, le_lastPlace q, by omega, rounded_of_pos hq⟩

/-- A number that is a double itself is a bound that is kept. -/
theorem le_rounded_of_rounded_eq {a q : ℚ} (ha : rounded a = a) (h : a ≤ q) : a ≤ rounded q := by
  obtain ⟨m, k, hk, hm, heq⟩ := exists_rounded_eq a
  rw [← ha, heq] at h ⊢
  exact le_rounded hk hm h

theorem rounded_mono_of_pos {q q' : ℚ} (hq : 0 < q) (h : q ≤ q') : rounded q ≤ rounded q' := by
  have hq' := hq.trans_le h
  have hplace : lastPlace q ≤ lastPlace q' := by
    have hlog := Int.log_mono_right (b := 2) (abs_pos_of_pos hq) (abs_le_abs_of_nonneg hq.le h)
    unfold lastPlace
    omega
  have hlow : 0 ≤ roundHalfEven (q * 2 ^ (-lastPlace q)) :=
    le_roundHalfEven (by rw [Int.cast_zero]; positivity)
  rw [rounded_of_pos hq, rounded_of_pos hq']
  rcases hplace.lt_or_eq with hlt | heq
  · -- the power of two that the larger unit belongs to is between them
    obtain ⟨n, hn⟩ := Int.eq_ofNat_of_zero_le hlow
    have hhigh := significand_le hq
    have hlow' := le_significand hq' (by have := le_lastPlace q; omega)
    have hcast : (2 : ℚ) ^ 52 ≤ roundHalfEven (q' * 2 ^ (-lastPlace q')) := by exact_mod_cast hlow'
    rw [hn] at hhigh ⊢
    calc ((n : ℤ) : ℚ) * 2 ^ lastPlace q ≤ 2 ^ (lastPlace q' + 52) := by
          exact_mod_cast mul_two_zpow_le (m := n) (by omega) hlt
      _ = 2 ^ 52 * 2 ^ lastPlace q' := by exact_mod_cast two_zpow_add (lastPlace q') 52
      _ ≤ roundHalfEven (q' * 2 ^ (-lastPlace q')) * 2 ^ lastPlace q' := by gcongr
  · rw [heq]
    gcongr
    exact_mod_cast roundHalfEven_mono (by gcongr)

theorem rounded_mono {q q' : ℚ} (h : q ≤ q') : rounded q ≤ rounded q' := by
  rcases lt_or_ge 0 q with hq | hq
  · exact rounded_mono_of_pos hq h
  · rcases le_or_gt 0 q' with hq' | hq'
    · have hneg := rounded_nonneg (neg_nonneg.2 hq)
      rw [rounded_neg] at hneg
      exact (neg_nonneg.1 hneg).trans (rounded_nonneg hq')
    · have hneg := rounded_mono_of_pos (neg_pos.2 hq') (neg_le_neg h)
      rwa [rounded_neg, rounded_neg, neg_le_neg_iff] at hneg

theorem rounded_rounded (q : ℚ) : rounded (rounded q) = rounded q := by
  obtain ⟨m, k, hk, hm, heq⟩ := exists_rounded_eq q
  rw [heq]
  exact rounded_representable hk hm

theorem rounded_integer_or_small (q : ℚ) :
    (∃ n : ℤ, rounded q = n) ∨ |rounded q| ≤ 2 ^ 53 := by
  obtain ⟨m, k, -, hm, heq⟩ := exists_rounded_eq q
  rw [heq]
  rcases le_or_gt 0 k with hpos | hneg
  · obtain ⟨n, rfl⟩ := Int.eq_ofNat_of_zero_le hpos
    refine .inl ⟨m * 2 ^ n, ?_⟩
    push_cast
    rw [zpow_natCast]
  · have hone : (2 : ℚ) ^ k ≤ 1 := zpow_le_one_of_nonpos₀ (by norm_num) hneg.le
    have hcast : |(m : ℚ)| ≤ 2 ^ 53 := by
      rw [← Int.cast_abs, Int.abs_eq_natAbs]
      exact_mod_cast hm
    rw [abs_mul, abs_of_pos (by positivity : (0 : ℚ) < 2 ^ k)]
    exact .inr ((mul_le_of_le_one_right (abs_nonneg _) hone).trans hcast)

theorem rounded_floor {q : ℚ} (hq : 0 ≤ q) : rounded ⌊rounded q⌋ = ⌊rounded q⌋ := by
  have hnonneg := rounded_nonneg hq
  rcases rounded_integer_or_small q with ⟨n, hn⟩ | hsmall
  · rw [hn, Int.floor_intCast, ← hn, rounded_rounded]
  · rw [abs_of_nonneg hnonneg] at hsmall
    have hlow : 0 ≤ ⌊rounded q⌋ := Int.floor_nonneg.2 hnonneg
    have hhigh : ⌊rounded q⌋ ≤ 2 ^ 53 := by exact_mod_cast (Int.floor_le _).trans hsmall
    exact rounded_intCast (by omega)

theorem rounded_roundHalfAway (q : ℚ) :
    rounded (roundHalfAway (rounded q)) = roundHalfAway (rounded q) := by
  rcases rounded_integer_or_small q with ⟨n, hn⟩ | hsmall
  · rw [hn, roundHalfAway_intCast, ← hn, rounded_rounded]
  · have hround := abs_roundHalfAway_le_two_pow hsmall
    rw [← Int.cast_abs, Int.abs_eq_natAbs] at hround
    exact rounded_intCast (by exact_mod_cast hround)

theorem rounded_add {m : ℕ} {s : ℤ} {d : ℚ} (hs : -1074 ≤ s) (hm : 2 ^ 52 ≤ m) (hm' : m < 2 ^ 53)
    (hd : 0 ≤ d) (hd' : d < 1) :
    rounded ((m + d) * 2 ^ s) =
      (if 1 / 2 < d ∨ (d = 1 / 2 ∧ m % 2 = 1) then (m + 1 : ℚ) else m) * 2 ^ s := by
  have hunit : (0 : ℚ) < 2 ^ s := by positivity
  have hlow : (2 : ℚ) ^ 52 ≤ m := by exact_mod_cast hm
  have hhigh : (m : ℚ) + 1 ≤ 2 ^ 53 := by exact_mod_cast hm'
  have hbelow : 2 ^ (s + 52) ≤ (m + d) * 2 ^ s := by
    refine (two_zpow_add s 52).trans_le ?_
    gcongr
    linarith
  have habove : (m + d) * 2 ^ s < 2 ^ (s + 53) := by
    refine lt_of_lt_of_eq ?_ (two_zpow_add s 53).symm
    gcongr
    linarith
  have hscaled : (m + d) * 2 ^ s * 2 ^ (-s) = m + d := by
    rw [zpow_neg, mul_inv_cancel_right₀ hunit.ne']
  have hfloor : ⌊(m : ℚ) + d⌋ = m := by
    rw [Int.floor_natCast_add, Int.floor_eq_zero_iff.2 ⟨hd, hd'⟩, add_zero]
  have hodd : (m : ℤ) % 2 = 1 ↔ m % 2 = 1 := by omega
  rw [rounded_eq hs hbelow habove, hscaled, roundHalfEven, hfloor]
  simp only [Int.cast_natCast, add_sub_cancel_left, hodd]
  split_ifs
  · push_cast
    rfl
  · rfl

section middle

variable {n : ℕ} {k : ℤ} {q : ℚ} (hk : -1074 ≤ k) (hn : 2 ^ 52 ≤ n) (hn' : n < 2 ^ 53)

include hk hn hn'

theorem rounded_le_even (heven : n % 2 = 0) (h : q ≤ (n + 1 / 2) * 2 ^ k) :
    rounded q ≤ n * 2 ^ k := by
  have hunit : (0 : ℚ) < 2 ^ k := by positivity
  rcases le_or_gt q (n * 2 ^ k) with hle | hgt
  · exact rounded_le (m := n) hk (by omega) hle
  · have hq : q = (n + (q / 2 ^ k - n)) * 2 ^ k := by
      rw [add_sub_cancel, div_mul_cancel₀ q hunit.ne']
    have hpos : 0 ≤ q / 2 ^ k - n := sub_nonneg.2 ((le_div_iff₀ hunit).2 hgt.le)
    have hhalf : q / 2 ^ k ≤ n + 1 / 2 := (div_le_iff₀ hunit).2 h
    rw [hq, rounded_add hk hn hn' hpos (by linarith), if_neg]
    rintro (hlt | ⟨-, hodd⟩)
    · linarith
    · omega

theorem succ_le_rounded (h : (n + 1 / 2) * 2 ^ k < q) : (n + 1) * 2 ^ k ≤ rounded q := by
  have hunit : (0 : ℚ) < 2 ^ k := by positivity
  rcases le_or_gt ((n + 1 : ℚ) * 2 ^ k) q with hle | hgt
  · have hbound := le_rounded (m := n + 1) hk (by omega) (by push_cast; exact hle)
    push_cast at hbound
    exact hbound
  · have hq : q = (n + (q / 2 ^ k - n)) * 2 ^ k := by
      rw [add_sub_cancel, div_mul_cancel₀ q hunit.ne']
    have hhalf : n + 1 / 2 < q / 2 ^ k := (lt_div_iff₀ hunit).2 h
    have hone : q / 2 ^ k < n + 1 := (div_lt_iff₀ hunit).2 hgt
    rw [hq, rounded_add hk hn hn' (by linarith) (by linarith), if_pos (.inl (by linarith))]

end middle

end Nanonet
