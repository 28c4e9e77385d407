import Nanonet.Lib.Printf
import Nanonet.Lib.Rounding

/-!
# Arithmetic of doubles

Sum, difference, quotient, `floor` and `round` of doubles, and their text in fixed point notation.
On finite numbers each gives the exact result rounded (`value_ofExact`), as long as that is not too
large for a double.
-/

namespace Nanonet.Double

/-- The double that an exact result is rounded to; a zero has the sign `zeroSign`. -/
def ofExact (zeroSign : Bool) (q : ℚ) : Double := if q = 0 then ofFields zeroSign 0 else ofRat q

def add (x y : Double) : Double :=
  if x.value = none ∨ y.value = none then nan
  else if x.exponent.val = 2047 then
    if y.exponent.val = 2047 ∧ x.sign ≠ y.sign then nan else x
  else if y.exponent.val = 2047 then y
  else ofExact (x.sign && y.sign) (x.toRat + y.toRat)

instance : Add Double := ⟨add⟩

instance : Neg Double := ⟨fun x => { x with sign := !x.sign }⟩

instance : Sub Double := ⟨fun x y => x + -y⟩

def div (x y : Double) : Double :=
  let sign := xor x.sign y.sign
  if x.value = none ∨ y.value = none then nan
  else if x.exponent.val = 2047 then
    if y.exponent.val = 2047 then nan else infinity sign
  else if y.exponent.val = 2047 then ofFields sign 0
  else if y.toRat = 0 then
    if x.toRat = 0 then nan else infinity sign
  else ofExact sign (x.toRat / y.toRat)

instance : Div Double := ⟨div⟩

def floor (x : Double) : Double := if x.exponent.val = 2047 then x else ofExact x.sign ⌊x.toRat⌋

def round (x : Double) : Double :=
  if x.exponent.val = 2047 then x else ofExact x.sign (roundHalfAway x.toRat)

/-- `llround( x )`: the nearest integer. Where that does not fit, the result is not specified. -/
def llround (x : Double) : Option Int64 :=
  match x.value with
  | some ((q : ℚ) : WithTop ℚ) =>
    if -2 ^ 63 ≤ roundHalfAway q ∧ roundHalfAway q < 2 ^ 63 then
      some (Int64.ofInt (roundHalfAway q))
    else none
  | _ => none

/-- What `printf` makes of `x` with `%0w.pf`: only a finite number is filled up with zeros. -/
def printf (width precision : ℕ) (x : Double) : List Char :=
  if x.exponent.val = 2047 then
    let text := (if x.sign then ['-'] else []) ++
      if x.fraction.val = 0 then ['i', 'n', 'f'] else ['n', 'a', 'n']
    List.replicate (width - text.length) ' ' ++ text
  else zeroFilled width x.sign (pointDigits precision |x.toRat|)

/-! ### The value of a result -/

theorem value_eq_some_iff {x : Double} {q : ℚ} :
    x.value = some (Extended.ofRat q) ↔ x.exponent.val ≠ 2047 ∧ x.toRat = q := by
  constructor
  · intro h
    refine ⟨fun heq => ?_, toRat_of_value h⟩
    rw [value, if_pos heq] at h
    split_ifs at h <;> cases h
  · rintro ⟨hfinite, rfl⟩
    rw [value, if_neg hfinite]

theorem value_ofFields_eq (sign : Bool) {e k : ℕ} (hk : k ≤ 2 ^ 53) (hnormal : e = 0 ∨ 2 ^ 52 ≤ k)
    (hfields : (e * 2 ^ 52 + k) / 2 ^ 52 < 2047) :
    (ofFields sign (e * 2 ^ 52 + k)).value =
      some (Extended.ofRat ((if sign then -1 else 1) * (k * 2 ^ ((e : ℤ) - 1074)))) := by
  rw [ofFields, if_pos hfields, value_eq_some_iff]
  have hexponent : (Fin.ofNat 2048 ((e * 2 ^ 52 + k) / 2 ^ 52)).val = (e * 2 ^ 52 + k) / 2 ^ 52 :=
    Nat.mod_eq_of_lt (by omega)
  refine ⟨by rw [hexponent]; omega, ?_⟩
  rw [toRat]
  refine congrArg _ ?_
  simp only [significand, scale, hexponent, Fin.val_ofNat]
  rcases Nat.lt_or_ge k (2 ^ 52) with hlt | hge
  · -- a subnormal number
    have he0 : e = 0 := by omega
    subst he0
    have hquot : (0 * 2 ^ 52 + k) / 2 ^ 52 = 0 := by omega
    have hmod : (0 * 2 ^ 52 + k) % 2 ^ 52 = k := by omega
    rw [hquot, hmod]
    norm_num
  · rcases Nat.lt_or_ge k (2 ^ 53) with hlt | hge'
    · have hquot : (e * 2 ^ 52 + k) / 2 ^ 52 = e + 1 := by omega
      have hmod : 2 ^ 52 + (e * 2 ^ 52 + k) % 2 ^ 52 = k := by omega
      have hscale : max ((e + 1 : ℕ) : ℤ) 1 - 1075 = e - 1074 := by omega
      rw [hquot, if_neg (by omega), hmod, hscale]
    · have hquot : (e * 2 ^ 52 + k) / 2 ^ 52 = e + 2 := by omega
      have hmod : 2 ^ 52 + (e * 2 ^ 52 + k) % 2 ^ 52 = 2 ^ 52 := by omega
      have hscale : max ((e + 2 : ℕ) : ℤ) 1 - 1075 = (e - 1074 : ℤ) + 1 := by omega
      rw [hquot, if_neg (by omega), hmod, hscale, zpow_add_one₀ (by norm_num),
        show k = 2 ^ 53 by omega]
      push_cast
      ring

theorem exists_fields {q : ℚ} (hq : q ≠ 0) :
    ∃ e k : ℕ, k ≤ 2 ^ 53 ∧ (e = 0 ∨ 2 ^ 52 ≤ k) ∧ |rounded q| = k * 2 ^ ((e : ℤ) - 1074) ∧
      rounded q = (if q < 0 then -1 else 1) * (k * 2 ^ ((e : ℤ) - 1074)) ∧
      ofRat q = ofFields (q < 0) (e * 2 ^ 52 + k) := by
  have hpos : 0 < |q| := abs_pos.2 hq
  have habs : lastPlace |q| = lastPlace q := by rw [lastPlace, lastPlace, abs_abs]
  have hlow : 0 ≤ roundHalfEven (|q| * 2 ^ (-lastPlace q)) :=
    le_roundHalfEven (by rw [Int.cast_zero]; positivity)
  have hhigh := significand_le hpos
  have hnormal := le_significand hpos
  have hplace := le_lastPlace q
  rw [habs] at hhigh hnormal
  have hexponent : max (Int.log 2 |q|) (-1022) + 1022 = lastPlace q + 1074 := by
    rw [lastPlace]
    ring
  have hunit : 52 - max (Int.log 2 |q|) (-1022) = -lastPlace q := by
    rw [lastPlace]
    ring
  obtain ⟨k, hk⟩ := Int.eq_ofNat_of_zero_le hlow
  obtain ⟨e, he⟩ := Int.eq_ofNat_of_zero_le (show 0 ≤ lastPlace q + 1074 by omega)
  have hplace_eq : lastPlace q = (e : ℤ) - 1074 := by omega
  have hrounded : rounded q = (if q < 0 then -1 else 1) * (k * 2 ^ ((e : ℤ) - 1074)) := by
    rw [rounded, hk, hplace_eq, Int.cast_natCast]
  refine ⟨e, k, by omega, by omega, ?_, hrounded, ?_⟩
  · have hmagnitude : (0 : ℚ) ≤ k * 2 ^ ((e : ℤ) - 1074) := by positivity
    rw [hrounded]
    split_ifs
    · rw [neg_one_mul, abs_neg, abs_of_nonneg hmagnitude]
    · rw [one_mul, abs_of_nonneg hmagnitude]
  · have hbits : ((e : ℤ) * 2 ^ 52 + k).toNat = e * 2 ^ 52 + k := by omega
    rw [ofRat, if_neg hq]
    simp only [hexponent, hunit]
    rw [hk, he]
    exact congrArg _ hbits

theorem fields_lt_iff {e k n : ℕ} (hk : k ≤ 2 ^ 53) (hnormal : e = 0 ∨ 2 ^ 52 ≤ k) :
    e * 2 ^ 52 + k < (n + 2) * 2 ^ 52 ↔ k * 2 ^ e < 2 ^ (53 + n) := by
  constructor
  · intro h
    rcases Nat.lt_or_ge e n with he | he
    · calc k * 2 ^ e ≤ 2 ^ 53 * 2 ^ e := Nat.mul_le_mul_right _ hk
        _ = 2 ^ (53 + e) := (pow_add 2 53 e).symm
        _ < 2 ^ (53 + n) := Nat.pow_lt_pow_right (by norm_num) (by omega)
    · obtain rfl : e = n := by omega
      calc k * 2 ^ e < 2 ^ 53 * 2 ^ e := Nat.mul_lt_mul_of_pos_right (by omega) (Nat.two_pow_pos _)
        _ = 2 ^ (53 + e) := (pow_add 2 53 e).symm
  · intro h
    by_contra hnot
    rcases Nat.lt_or_ge n e with he | he
    · have hle : 2 ^ (53 + n) ≤ k * 2 ^ e := by
        calc 2 ^ (53 + n) = 2 ^ 52 * 2 ^ (n + 1) := by rw [← pow_add]; congr 1; omega
          _ ≤ k * 2 ^ e := Nat.mul_le_mul (by omega) (Nat.pow_le_pow_right (by norm_num) he)
      omega
    · obtain rfl : e = n := by omega
      obtain rfl : k = 2 ^ 53 := by omega
      rw [← pow_add] at h
      exact lt_irrefl _ h

theorem fields_lt_iff_rat {e k : ℕ} (hk : k ≤ 2 ^ 53) (hnormal : e = 0 ∨ 2 ^ 52 ≤ k) :
    (e * 2 ^ 52 + k) / 2 ^ 52 < 2047 ↔ (k : ℚ) * 2 ^ ((e : ℤ) - 1074) < 2 ^ 1024 := by
  have hunit : (0 : ℚ) < 2 ^ (1074 : ℤ) := by positivity
  have hbound : (2 : ℚ) ^ 1024 * 2 ^ (1074 : ℤ) = 2 ^ (53 + 2045) := by
    rw [show (1074 : ℤ) = (1074 : ℕ) from rfl, zpow_natCast, ← pow_add]
  have hscaled : (k : ℚ) * 2 ^ ((e : ℤ) - 1074) * 2 ^ (1074 : ℤ) = k * 2 ^ e := by
    rw [mul_assoc, ← zpow_add₀ (by norm_num), sub_add_cancel, zpow_natCast]
  rw [Nat.div_lt_iff_lt_mul (by positivity), fields_lt_iff (n := 2045) hk hnormal,
    ← mul_lt_mul_iff_left₀ hunit, hbound, hscaled]
  generalize 53 + 2045 = n
  exact_mod_cast Iff.rfl

/-- What the nearest double is worth: an infinity from the next power of two on. -/
theorem value_ofRat_eq (q : ℚ) :
    (ofRat q).value = some (if |rounded q| < 2 ^ 1024 then Extended.ofRat (rounded q)
      else if q < 0 then ⊥ else ⊤) := by
  rcases eq_or_ne q 0 with rfl | hq
  · rw [rounded_zero, abs_zero, if_pos (by positivity)]
    decide +kernel
  obtain ⟨e, k, hk, hnormal, habs, hrounded, hofRat⟩ := exists_fields hq
  have hfields := fields_lt_iff_rat hk hnormal
  rw [← habs] at hfields
  rw [hofRat]
  split_ifs with hlt hneg
  · rw [value_ofFields_eq _ hk hnormal (hfields.2 hlt), hrounded]
    simp
  · rw [ofFields, if_neg fun h => hlt (hfields.1 h), value_infinity]
    simp [hneg]
  · rw [ofFields, if_neg fun h => hlt (hfields.1 h), value_infinity]
    simp [hneg]

theorem value_ofRat {q : ℚ} (h : |q| < 2 ^ 1023) :
    (ofRat q).value = some (Extended.ofRat (rounded q)) := by
  have hlt : |rounded q| < 2 ^ 1024 :=
    (abs_rounded_le_two_pow h.le).trans_lt (pow_lt_pow_right₀ (by norm_num) (by norm_num))
  rw [value_ofRat_eq, if_pos hlt]

theorem abs_lt_of_le_two_pow {q : ℚ} {n : ℕ} (h : |q| ≤ 2 ^ n) (hn : n < 1023) : |q| < 2 ^ 1023 :=
  h.trans_lt (pow_lt_pow_right₀ (by norm_num) hn)

theorem value_ofRat_intCast {n : ℤ} (hn : n.natAbs ≤ 2 ^ 53) :
    (ofRat n).value = some (Extended.ofRat n) := by
  have habs : |(n : ℚ)| ≤ 2 ^ 53 := by
    rw [← Int.cast_abs, Int.abs_eq_natAbs]
    exact_mod_cast hn
  rw [value_ofRat (abs_lt_of_le_two_pow habs (by decide)), rounded_intCast hn]

theorem value_ofExact (zeroSign : Bool) {q : ℚ} (h : |q| < 2 ^ 1023) :
    (ofExact zeroSign q).value = some (Extended.ofRat (rounded q)) := by
  unfold ofExact
  split_ifs with hzero
  · subst hzero
    rw [rounded_zero]
    cases zeroSign <;> decide +kernel
  · exact value_ofRat h

section operations

variable {x y : Double} {a b : ℚ}

theorem value_add (hx : x.value = some (Extended.ofRat a)) (hy : y.value = some (Extended.ofRat b))
    (h : |a + b| < 2 ^ 1023) : (x + y).value = some (Extended.ofRat (rounded (a + b))) := by
  obtain ⟨hxf, rfl⟩ := value_eq_some_iff.1 hx
  obtain ⟨hyf, rfl⟩ := value_eq_some_iff.1 hy
  change (add x y).value = _
  rw [add, if_neg (by simp [hx, hy]), if_neg hxf, if_neg hyf]
  exact value_ofExact _ h

theorem value_neg (hx : x.value = some (Extended.ofRat a)) :
    (-x).value = some (Extended.ofRat (-a)) := by
  obtain ⟨hxf, rfl⟩ := value_eq_some_iff.1 hx
  refine value_eq_some_iff.2 ⟨hxf, ?_⟩
  have hsign : (-x).sign = !x.sign := rfl
  have hsignificand : (-x).significand = x.significand := rfl
  have hscale : (-x).scale = x.scale := rfl
  rw [toRat, toRat, hsign, hsignificand, hscale]
  cases x.sign <;> simp

theorem value_sub (hx : x.value = some (Extended.ofRat a)) (hy : y.value = some (Extended.ofRat b))
    (h : |a - b| < 2 ^ 1023) : (x - y).value = some (Extended.ofRat (rounded (a - b))) := by
  rw [sub_eq_add_neg] at h ⊢
  exact value_add hx (value_neg hy) h

theorem value_mul (hx : x.value = some (Extended.ofRat a)) (hy : y.value = some (Extended.ofRat b))
    (h : |a * b| < 2 ^ 1023) : (x * y).value = some (Extended.ofRat (rounded (a * b))) := by
  obtain ⟨hxf, rfl⟩ := value_eq_some_iff.1 hx
  obtain ⟨hyf, rfl⟩ := value_eq_some_iff.1 hy
  change (mul x y).value = _
  rw [mul, if_neg (by simp [hx, hy]), if_neg (by simp [hxf, hyf])]
  exact value_ofExact _ h

theorem value_div (hx : x.value = some (Extended.ofRat a)) (hy : y.value = some (Extended.ofRat b))
    (hb : b ≠ 0) (h : |a / b| < 2 ^ 1023) :
    (x / y).value = some (Extended.ofRat (rounded (a / b))) := by
  obtain ⟨hxf, rfl⟩ := value_eq_some_iff.1 hx
  obtain ⟨hyf, rfl⟩ := value_eq_some_iff.1 hy
  change (div x y).value = _
  rw [div, if_neg (by simp [hx, hy]), if_neg hxf, if_neg hyf, if_neg hb]
  exact value_ofExact _ h

theorem value_floor (hx : x.value = some (Extended.ofRat a)) (h : |(⌊a⌋ : ℚ)| < 2 ^ 1023) :
    (floor x).value = some (Extended.ofRat (rounded ⌊a⌋)) := by
  obtain ⟨hxf, rfl⟩ := value_eq_some_iff.1 hx
  rw [floor, if_neg hxf]
  exact value_ofExact _ h

theorem value_round (hx : x.value = some (Extended.ofRat a))
    (h : |(roundHalfAway a : ℚ)| < 2 ^ 1023) :
    (round x).value = some (Extended.ofRat (rounded (roundHalfAway a))) := by
  obtain ⟨hxf, rfl⟩ := value_eq_some_iff.1 hx
  rw [round, if_neg hxf]
  exact value_ofExact _ h

end operations

theorem le_iff {x y : Double} {a b : ℚ} (hx : x.value = some (Extended.ofRat a))
    (hy : y.value = some (Extended.ofRat b)) : x ≤ y ↔ a ≤ b := by
  change (∃ a ∈ x.value, ∃ b ∈ y.value, a ≤ b) ↔ a ≤ b
  simp [hx, hy, Extended.ofRat]

theorem toRat_of_nonneg {x : Double} (h : 0 ≤ x.toRat) : x.toRat = x.significand * 2 ^ x.scale := by
  have hmagnitude : (0 : ℚ) ≤ x.significand * 2 ^ x.scale := by positivity
  unfold toRat at *
  split_ifs at * <;> linarith

@[irreducible] def lastFinite : ℤ := (2 ^ 53 - 1) * 2 ^ 971

theorem abs_toRat_le_last {x : Double} (hfinite : x.exponent.val ≠ 2047) :
    |x.toRat| ≤ lastFinite := by
  have hmagnitude : (0 : ℚ) ≤ x.significand * 2 ^ x.scale := by positivity
  have hsignificand : (x.significand : ℚ) ≤ (2 ^ 53 - 1 : ℤ) := by
    have hlt : (x.significand : ℤ) ≤ 2 ^ 53 - 1 := by
      have := significand_lt x
      omega
    exact_mod_cast hlt
  have hscale : x.scale ≤ 971 := by
    have hexponent := x.exponent.isLt
    unfold scale
    omega
  have habs : |x.toRat| = x.significand * 2 ^ x.scale := by
    unfold toRat
    split_ifs
    · rw [neg_one_mul, abs_neg, abs_of_nonneg hmagnitude]
    · rw [one_mul, abs_of_nonneg hmagnitude]
  have hunit : (2 : ℚ) ^ x.scale ≤ (2 ^ 971 : ℤ) := by
    rw [Int.cast_pow, Int.cast_ofNat, ← zpow_natCast]
    exact zpow_le_zpow_right₀ (by norm_num) hscale
  rw [habs, lastFinite, Int.cast_mul]
  exact mul_le_mul hsignificand hunit (by positivity) (by norm_num)

theorem lastFinite_lt : (lastFinite : ℚ) < 2 ^ 1024 := by
  rw [lastFinite, Int.cast_mul, Int.cast_pow, Int.cast_ofNat, show 1024 = 53 + 971 from rfl, pow_add]
  exact mul_lt_mul_of_pos_right (by norm_num) (by positivity)

theorem abs_toRat_le {x : Double} (hfinite : x.exponent.val ≠ 2047) : |x.toRat| ≤ 2 ^ 1024 :=
  (abs_toRat_le_last hfinite).trans lastFinite_lt.le

theorem rounded_toRat (x : Double) : rounded x.toRat = x.toRat := by
  have hscale : -1074 ≤ x.scale := by
    unfold scale
    omega
  have hsignificand := significand_lt x
  have hmagnitude : rounded (x.significand * 2 ^ x.scale) = x.significand * 2 ^ x.scale :=
    rounded_representable (m := x.significand) hscale (by omega)
  unfold toRat
  split_ifs
  · rw [neg_one_mul, rounded_neg, hmagnitude]
  · rw [one_mul, hmagnitude]

theorem value_round_eq {x : Double} (hfinite : x.exponent.val ≠ 2047) :
    (round x).value = some (Extended.ofRat (roundHalfAway x.toRat)) := by
  have hdouble : rounded (roundHalfAway x.toRat) = roundHalfAway x.toRat := by
    have h := rounded_roundHalfAway x.toRat
    rwa [rounded_toRat] at h
  obtain ⟨hlow, hhigh⟩ := abs_le.1 (abs_toRat_le_last hfinite)
  have hlow' : -lastFinite ≤ roundHalfAway x.toRat := le_roundHalfAway (by rwa [Int.cast_neg])
  have hround : |roundHalfAway x.toRat| ≤ lastFinite := abs_le.2 ⟨hlow', roundHalfAway_le hhigh⟩
  have hlt : |(roundHalfAway x.toRat : ℚ)| < 2 ^ 1024 :=
    (by exact_mod_cast hround : |(roundHalfAway x.toRat : ℚ)| ≤ lastFinite).trans_lt lastFinite_lt
  rw [round, if_neg hfinite]
  unfold ofExact
  split_ifs with hzero
  · rw [hzero]
    cases x.sign <;> decide +kernel
  · rw [value_ofRat_eq, hdouble, if_pos hlt]

/-- Below a power of two, a double is no more than the last one with 53 bits. -/
theorem toRat_le_pred {x : Double} {k : ℤ} (hpos : 0 ≤ x.toRat) (h : x.toRat < 2 ^ 53 * 2 ^ k) :
    x.toRat ≤ (2 ^ 53 - 1) * 2 ^ k := by
  have hsignificand : (x.significand : ℚ) ≤ 2 ^ 53 - 1 := by
    have hlt : (x.significand : ℚ) + 1 ≤ 2 ^ 53 := by exact_mod_cast significand_lt x
    linarith
  rw [toRat_of_nonneg hpos] at h ⊢
  rcases le_or_gt k x.scale with hle | hlt
  · obtain ⟨n, hn⟩ := Int.le.dest hle
    have hunit : (0 : ℚ) < 2 ^ k := by positivity
    rw [← hn, two_zpow_add, ← mul_assoc] at h ⊢
    have hint : x.significand * 2 ^ n < 2 ^ 53 := by
      exact_mod_cast lt_of_mul_lt_mul_right h hunit.le
    have hle' : (x.significand * 2 ^ n : ℚ) + 1 ≤ 2 ^ 53 := by exact_mod_cast hint
    gcongr
    linarith
  · gcongr
    norm_num

theorem le_significand_of_scale {x : Double} (h : -1074 < x.scale) : 2 ^ 52 ≤ x.significand := by
  unfold scale at h
  rw [significand, if_neg (by omega)]
  omega

theorem sign_of_pos {x : Double} (h : 0 < x.toRat) : x.sign = false := by
  by_contra hsign
  rw [Bool.not_eq_false] at hsign
  have hmagnitude : (0 : ℚ) ≤ x.significand * 2 ^ x.scale := by positivity
  rw [toRat, hsign, if_pos rfl] at h
  linarith

theorem sign_of_neg {x : Double} (h : x.toRat < 0) : x.sign = true := by
  by_contra hsign
  rw [Bool.not_eq_true] at hsign
  have hmagnitude : (0 : ℚ) ≤ x.significand * 2 ^ x.scale := by positivity
  rw [toRat, hsign, if_neg (by decide)] at h
  linarith

/-! ### Lower bounds, overflow included -/

/-- The double is a number, and no less than `b`. -/
def AtLeast (b : ℚ) (x : Double) : Prop := ∃ a ∈ x.value, Extended.ofRat b ≤ a

theorem atLeast_of_value {x : Double} {a b : ℚ} (hx : x.value = some (Extended.ofRat a))
    (h : b ≤ a) : AtLeast b x :=
  ⟨_, hx, WithBot.coe_le_coe.2 (WithTop.coe_le_coe.2 h)⟩

theorem AtLeast.cases {x : Double} {b : ℚ} (h : AtLeast b x) :
    x.exponent.val ≠ 2047 ∧ b ≤ x.toRat ∨ x.exponent.val = 2047 ∧ x.value = some ⊤ ∧ x.sign = false := by
  obtain ⟨a, ha, hle⟩ := h
  rw [Option.mem_def, value] at ha
  split_ifs at ha with hinfinite hzero hsign
  · cases ha
    exact absurd hle (by simp [Extended.ofRat])
  · refine .inr ⟨hinfinite, ?_, by simpa using hsign⟩
    rw [value, if_pos hinfinite, if_pos hzero, if_neg hsign]
  · cases ha
    exact .inl ⟨hinfinite, WithTop.coe_le_coe.1 (WithBot.coe_le_coe.1 hle)⟩

theorem AtLeast.value_ne_none {x : Double} {b : ℚ} (h : AtLeast b x) : x.value ≠ none := by
  obtain ⟨a, ha, -⟩ := h
  exact Option.ne_none_iff_exists'.2 ⟨a, ha⟩

theorem atLeast_of_top {x : Double} (h : x.value = some ⊤) (b : ℚ) : AtLeast b x :=
  ⟨⊤, h, le_top⟩

section bounds

variable {b c q : ℚ} {x y : Double}

theorem atLeast_ofRat (hb : 0 ≤ b) (hb' : rounded b = b) (h : b ≤ q) : AtLeast b (ofRat q) := by
  have hvalue := value_ofRat_eq q
  split_ifs at hvalue with hlt hneg
  · exact atLeast_of_value hvalue (le_rounded_of_rounded_eq hb' h)
  · linarith
  · exact atLeast_of_top hvalue b

theorem atLeast_ofExact (zeroSign : Bool) (hb : 0 < b) (hb' : rounded b = b) (h : b ≤ q) :
    AtLeast b (ofExact zeroSign q) := by
  rw [ofExact, if_neg (hb.trans_le h).ne']
  exact atLeast_ofRat hb.le hb' h

theorem AtLeast.mul (hx : x.value = some (Extended.ofRat q)) (hy : y.value = some (Extended.ofRat c))
    (hb : 0 < b) (hb' : rounded b = b) (h : b ≤ q * c) : AtLeast b (x * y) := by
  obtain ⟨hxf, rfl⟩ := value_eq_some_iff.1 hx
  obtain ⟨hyf, rfl⟩ := value_eq_some_iff.1 hy
  change AtLeast b (Double.mul x y)
  rw [Double.mul, if_neg (by simp [hx, hy]), if_neg (by simp [hxf, hyf]),
    if_neg (hb.trans_le h).ne']
  exact atLeast_ofRat hb.le hb' h

theorem AtLeast.add (h : AtLeast b x) (hy : y.value = some (Extended.ofRat c)) (hb : 0 < b)
    (hb' : rounded b = b) (hc : 0 ≤ c) : AtLeast b (x + y) := by
  obtain ⟨hyf, rfl⟩ := value_eq_some_iff.1 hy
  change AtLeast b (Double.add x y)
  rw [Double.add, if_neg (by simp [hy, h.value_ne_none])]
  rcases h.cases with ⟨hxf, hle⟩ | ⟨hxi, htop, -⟩
  · rw [if_neg hxf, if_neg hyf]
    exact atLeast_ofExact _ hb hb' (by linarith)
  · rw [if_pos hxi, if_neg (by simp [hyf])]
    exact atLeast_of_top htop b

theorem AtLeast.floor {n : ℤ} (h : AtLeast n x) (hn : 0 < n) (hn' : rounded n = n) :
    AtLeast n (Double.floor x) := by
  rcases h.cases with ⟨hxf, hle⟩ | ⟨hxi, htop, -⟩
  · rw [Double.floor, if_neg hxf]
    exact atLeast_ofExact _ (by exact_mod_cast hn) hn' (by exact_mod_cast Int.le_floor.2 hle)
  · rw [Double.floor, if_pos hxi]
    exact atLeast_of_top htop n

theorem AtLeast.div (h : AtLeast b x) (hy : y.value = some (Extended.ofRat c)) (hb : 0 < b)
    (hc : 0 < c) (hbc : rounded (b / c) = b / c) : AtLeast (b / c) (x / y) := by
  obtain ⟨hyf, rfl⟩ := value_eq_some_iff.1 hy
  change AtLeast _ (Double.div x y)
  rw [Double.div, if_neg (by simp [hy, h.value_ne_none])]
  rcases h.cases with ⟨hxf, hle⟩ | ⟨hxi, -, hsign⟩
  · rw [if_neg hxf, if_neg hyf, if_neg hc.ne']
    exact atLeast_ofExact _ (by positivity) hbc (by gcongr)
  · rw [if_pos hxi, if_neg hyf, hsign, sign_of_pos hc]
    exact atLeast_of_top (value_infinity false) _

theorem AtLeast.toInt64 (h : AtLeast (2 ^ 63) x) : x.toInt64 = none := by
  refine toInt64_of_not_fits ?_
  rintro ⟨q, hq, -, hlt⟩
  obtain ⟨hfinite, rfl⟩ := value_eq_some_iff.1 hq
  rcases h.cases with ⟨-, hle⟩ | ⟨hinfinite, -⟩
  · have hnonneg : (0 : ℚ) ≤ x.toRat := le_trans (by positivity) hle
    rw [truncate, if_pos hnonneg] at hlt
    have hfloor : (2 ^ 63 : ℤ) ≤ ⌊x.toRat⌋ := Int.le_floor.2 (by exact_mod_cast hle)
    omega
  · exact hfinite hinfinite

end bounds

/-! ### The length of the text -/

theorem length_printf (width precision : ℕ) {x : Double} (hfinite : x.exponent.val ≠ 2047) :
    (printf width precision x).length =
      max width ((if x.sign then 1 else 0) + (pointDigits precision |x.toRat|).length) := by
  rw [printf, if_neg hfinite, length_zeroFilled]

theorem width_le_length_printf (width precision : ℕ) (x : Double) :
    width ≤ (printf width precision x).length := by
  by_cases hfinite : x.exponent.val = 2047
  · rw [printf, if_pos hfinite]
    simp only [List.length_append, List.length_replicate]
    omega
  · rw [length_printf width precision hfinite]
    exact le_max_left _ _

theorem length_pointDigits_le (precision : ℕ) {q : ℚ} {bound digits : ℕ} (hdigits : 0 < digits)
    (hq : q ≤ bound) (hbound : bound < 10 ^ digits) :
    (pointDigits precision q).length ≤ digits + fractionLength precision := by
  rw [length_pointDigits]
  refine Nat.add_le_add_right ((Nat.length_toDigits_le_iff (by decide) hdigits).2 ?_) _
  have hround : roundHalfEven (q * 10 ^ precision) ≤ (bound * 10 ^ precision : ℕ) := by
    refine roundHalfEven_le ?_
    push_cast
    gcongr
  rw [Nat.div_lt_iff_lt_mul (by positivity)]
  calc (roundHalfEven (q * 10 ^ precision)).toNat ≤ bound * 10 ^ precision := by omega
    _ < 10 ^ digits * 10 ^ precision := Nat.mul_lt_mul_of_pos_right hbound (by positivity)

theorem lt_length_pointDigits (precision : ℕ) {q : ℚ} {digits : ℕ} (hq : 10 ^ digits ≤ q) :
    digits + fractionLength precision < (pointDigits precision q).length := by
  rw [length_pointDigits]
  refine Nat.add_lt_add_right ?_ _
  have hround : ((10 ^ digits * 10 ^ precision : ℕ) : ℤ) ≤ roundHalfEven (q * 10 ^ precision) := by
    refine le_roundHalfEven ?_
    push_cast
    gcongr
  have hle : 10 ^ digits ≤ (roundHalfEven (q * 10 ^ precision)).toNat / 10 ^ precision := by
    rw [Nat.le_div_iff_mul_le (by positivity)]
    omega
  rcases Nat.eq_zero_or_pos digits with rfl | hpos
  · exact Nat.length_toDigits_pos
  · by_contra hnot
    have hlt := (Nat.length_toDigits_le_iff (by decide) hpos).1 (not_lt.1 hnot)
    omega

section printed

variable (width precision : ℕ) {x : Double} {q : ℚ} (hx : x.value = some (Extended.ofRat q))

include hx

/-- A number of so many digits before the point, with a sign or without. -/
theorem length_printf_le {bound digits : ℕ} (hdigits : 0 < digits) (hq : |q| ≤ bound)
    (hbound : bound < 10 ^ digits) :
    (printf width precision x).length ≤ max width (1 + (digits + fractionLength precision)) := by
  obtain ⟨hfinite, rfl⟩ := value_eq_some_iff.1 hx
  rw [length_printf width precision hfinite]
  have hlength := length_pointDigits_le precision hdigits hq hbound
  split_ifs <;> omega

theorem length_printf_le_of_nonneg {bound digits : ℕ} (hdigits : 0 < digits) (hpos : 0 ≤ q)
    (hq : q ≤ bound) (hbound : bound < 10 ^ digits) :
    (printf width precision x).length ≤
      max width (max 2 digits + fractionLength precision) := by
  obtain ⟨hfinite, rfl⟩ := value_eq_some_iff.1 hx
  rw [length_printf width precision hfinite, abs_of_nonneg hpos]
  rcases hpos.eq_or_lt with hzero | hlt
  · have hle : x.toRat ≤ (0 : ℕ) := by rw [← hzero, Nat.cast_zero]
    have hlength := length_pointDigits_le precision one_pos hle (by decide)
    split_ifs <;> omega
  · have hlength := length_pointDigits_le precision hdigits hq hbound
    rw [sign_of_pos hlt, if_neg (by decide)]
    omega

theorem lt_length_printf {digits : ℕ} (hq : 10 ^ digits ≤ |q|) :
    (if q < 0 then 1 else 0) + (digits + fractionLength precision) <
      (printf width precision x).length := by
  obtain ⟨hfinite, rfl⟩ := value_eq_some_iff.1 hx
  rw [length_printf width precision hfinite]
  have hlength := lt_length_pointDigits precision hq
  split_ifs with hneg hsign hsign
  · omega
  · exact absurd (sign_of_neg hneg) hsign
  · omega
  · omega

end printed

end Nanonet.Double
