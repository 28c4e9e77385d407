import Mathlib.Algebra.Order.Field.Power
import Mathlib.Data.Rat.Floor
import Mathlib.Data.Int.Log
import Mathlib.Data.List.DropRight
import Mathlib.Order.WithBot
import Mathlib.Data.Rat.Cast.Order

/-!
# Double precision numbers

The numbers of the IEEE 754 format binary64 by their three fields, what they stand for on the
rational line with its two ends, the comparisons, the conversions from and to integers, and the text
with six significant digits. An integer of at most 53 significant bits is converted without loss
(`value_ofInt`), and what a double is truncated to is such an integer (`exists_truncate_eq`).
-/

namespace Nanonet

/-- The rational numbers with an infinity at either end. -/
abbrev Extended := WithBot (WithTop ℚ)

/-- A rational number among the extended ones. -/
abbrev Extended.ofRat (q : ℚ) : Extended := ((q : WithTop ℚ) : Extended)

/-- A double: its sign, its exponent field and its fraction field. -/
structure Double where
  sign : Bool
  exponent : Fin 2048
  fraction : Fin (2 ^ 52)
  deriving DecidableEq

/-- The nearest integer, and of two nearest ones the even one. -/
def roundHalfEven (q : ℚ) : ℤ :=
  let r := q - ⌊q⌋
  if 1 / 2 < r ∨ (r = 1 / 2 ∧ ⌊q⌋ % 2 = 1) then ⌊q⌋ + 1 else ⌊q⌋

/-- The nearest integer, and of two nearest ones the one away from zero. -/
def roundHalfAway (q : ℚ) : ℤ := if 0 ≤ q then ⌊q + 1 / 2⌋ else ⌈q - 1 / 2⌉

/-- The integer that is left when the fraction is dropped. -/
def truncate (q : ℚ) : ℤ := if 0 ≤ q then ⌊q⌋ else ⌈q⌉

theorem roundHalfEven_intCast (n : ℤ) : roundHalfEven n = n := by
  simp [roundHalfEven]

theorem truncate_intCast (n : ℤ) : truncate n = n := by
  simp [truncate]

theorem truncate_neg (q : ℚ) : truncate (-q) = -truncate q := by
  obtain hneg | rfl | hpos := lt_trichotomy q 0
  · have h : ¬ 0 ≤ q := not_le.2 hneg
    rw [truncate, truncate, if_pos (by linarith), if_neg h, Int.floor_neg]
  · simp [truncate]
  · have h : ¬ 0 ≤ -q := by linarith
    rw [truncate, truncate, if_neg h, if_pos hpos.le, Int.ceil_neg]

theorem le_truncate {n : ℤ} {q : ℚ} (hn : n ≤ 0) (h : n ≤ q) : n ≤ truncate q := by
  unfold truncate
  split_ifs with hq
  · exact hn.trans (Int.floor_nonneg.2 hq)
  · exact_mod_cast h.trans (Int.le_ceil q)

theorem truncate_lt {n : ℤ} {q : ℚ} (hn : 0 < n) (h : q < n) : truncate q < n := by
  unfold truncate
  split_ifs with hq
  · exact Int.floor_lt.2 h
  · exact (Int.ceil_nonpos.2 (not_le.1 hq).le).trans_lt hn

namespace Double

/-! ### Values -/

def significand (x : Double) : ℕ :=
  if x.exponent.val = 0 then x.fraction.val else 2 ^ 52 + x.fraction.val

/-- The exponent that goes with the significand. -/
def scale (x : Double) : ℤ := max (x.exponent.val : ℤ) 1 - 1075

/-- The number that the fields of a finite double stand for. -/
def toRat (x : Double) : ℚ := (if x.sign then -1 else 1) * (x.significand * 2 ^ x.scale)

/-- What a double stands for; nothing if it is not a number. -/
def value (x : Double) : Option Extended :=
  if x.exponent.val = 2047 then
    if x.fraction.val = 0 then some (if x.sign then ⊥ else ⊤) else none
  else some (Extended.ofRat x.toRat)

/-- A double that is not a number compares to nothing. -/
instance : LT Double := ⟨fun x y => ∃ a ∈ x.value, ∃ b ∈ y.value, a < b⟩

instance : DecidableLT Double := fun x y =>
  inferInstanceAs (Decidable (∃ a ∈ x.value, ∃ b ∈ y.value, a < b))

instance : LE Double := ⟨fun x y => ∃ a ∈ x.value, ∃ b ∈ y.value, a ≤ b⟩

instance : DecidableLE Double := fun x y =>
  inferInstanceAs (Decidable (∃ a ∈ x.value, ∃ b ∈ y.value, a ≤ b))

def Equals (x y : Double) : Prop := ∃ a ∈ x.value, a ∈ y.value

instance (x y : Double) : Decidable (x.Equals y) :=
  inferInstanceAs (Decidable (∃ a ∈ x.value, a ∈ y.value))

def infinity (sign : Bool) : Double := ⟨sign, 2047, 0⟩

/-- The double with the fields that the number `bits` below the sign bit holds, or an infinity where
it has no finite one. -/
def ofFields (sign : Bool) (bits : ℕ) : Double :=
  if bits / 2 ^ 52 < 2047 then ⟨sign, Fin.ofNat _ (bits / 2 ^ 52), Fin.ofNat _ bits⟩
  else infinity sign

/-- The nearest double. Rounding up to the next power of two carries into the exponent. -/
def ofRat (q : ℚ) : Double :=
  if q = 0 then ofFields false 0
  else
    let e := max (Int.log 2 |q|) (-1022)
    ofFields (q < 0) ((e + 1022) * 2 ^ 52 + roundHalfEven (|q| * 2 ^ (52 - e))).toNat

/-- The double that an integer is converted to. -/
def ofInt (n : ℤ) : Double := ofRat n

def nan : Double := ⟨false, 2047, Fin.ofNat _ (2 ^ 51)⟩

def mul (x y : Double) : Double :=
  let sign := xor x.sign y.sign
  if x.value = none ∨ y.value = none then nan
  else if x.exponent.val = 2047 ∨ y.exponent.val = 2047 then
    if x.toRat = 0 ∨ y.toRat = 0 then nan else infinity sign
  else if x.toRat * y.toRat = 0 then ⟨sign, 0, 0⟩
  else ofRat (x.toRat * y.toRat)

instance : Mul Double := ⟨mul⟩

/-- The conversion to a signed integer of 64 bits. It drops the fraction, and where what is left does
not fit there is no result. -/
def toInt64 (x : Double) : Option Int64 :=
  match x.value with
  | some ((q : ℚ) : WithTop ℚ) =>
    if -2 ^ 63 ≤ truncate q ∧ truncate q < 2 ^ 63 then some (Int64.ofInt (truncate q)) else none
  | _ => none

theorem lt_iff {x y : Double} {a b : Extended} (hx : x.value = some a) (hy : y.value = some b) :
    x < y ↔ a < b := by
  change (∃ a ∈ x.value, ∃ b ∈ y.value, a < b) ↔ a < b
  simp [hx, hy]

theorem not_lt_of_le {x y : Double} (h : x ≤ y) : ¬ y < x := by
  obtain ⟨a, ha, b, hb, hle⟩ := h
  rw [lt_iff hb ha]
  exact not_lt.2 hle

theorem value_infinity (sign : Bool) :
    (infinity sign).value = some (if sign then ⊥ else ⊤) := by
  cases sign <;> rfl

theorem value_ofFields (sign : Bool) (bits : ℕ) : (ofFields sign bits).value ≠ none := by
  unfold ofFields
  split_ifs with hbits
  · have hexponent : (Fin.ofNat 2048 (bits / 2 ^ 52)).val ≠ 2047 := by
      rw [Fin.val_ofNat, Nat.mod_eq_of_lt (by omega)]
      omega
    rw [value, if_neg hexponent]
    exact Option.some_ne_none _
  · rw [value_infinity]
    exact Option.some_ne_none _

theorem value_ofRat_ne_none (q : ℚ) : (ofRat q).value ≠ none := by
  unfold ofRat
  split_ifs
  · exact value_ofFields false 0
  · exact value_ofFields _ _

/-- A number times a finite number other than zero is a number. -/
theorem value_mul_ne_none {x y : Double} (hx : x.value ≠ none) (hy : y.value ≠ none)
    (hfinite : y.exponent.val ≠ 2047) (hne : y.toRat ≠ 0) : (x * y).value ≠ none := by
  change (mul x y).value ≠ none
  simp only [mul, hx, hy, hfinite, hne, or_self, or_false, if_false]
  split_ifs with hinfinite hzero
  · have hpos : (0 : ℚ) < x.significand := by
      have hsignificand : x.significand = 2 ^ 52 + x.fraction.val := by
        rw [significand, if_neg (by omega)]
      rw [hsignificand]
      positivity
    have habs : x.toRat ≠ 0 := by
      unfold toRat
      split_ifs <;> positivity
    exact absurd hzero habs
  · rw [value_infinity]
    exact Option.some_ne_none _
  · rw [value, if_neg (show ((0 : Fin 2048) : ℕ) ≠ 2047 by decide)]
    exact Option.some_ne_none _
  · exact value_ofRat_ne_none _

/-! ### Text -/

/-- A decimal number; the zeros at the end of its fraction are dropped, and the point with them if
nothing is left. -/
def pointed (whole fraction : List Char) : List Char :=
  match fraction.rdropWhile (· = '0') with
  | [] => whole
  | digits => whole ++ '.' :: digits

/-- A positive number with six significant digits, in scientific notation where its decimal exponent
is less than -4 or greater than 5. -/
def positiveText (q : ℚ) : List Char :=
  let e := Int.log 10 q
  let digits := (roundHalfEven (q * 10 ^ (5 - e))).toNat
  -- rounding up to the next power of ten
  let (digits, e) := if digits = 10 ^ 6 then (10 ^ 5, e + 1) else (digits, e)
  let digits := Nat.toDigits 10 digits
  if e < -4 ∨ 6 ≤ e then
    let power := Nat.toDigits 10 e.natAbs
    pointed (digits.take 1) (digits.drop 1) ++
      'e' :: (if e < 0 then '-' else '+') :: (List.replicate (2 - power.length) '0' ++ power)
  else if 0 ≤ e then pointed (digits.take (e.toNat + 1)) (digits.drop (e.toNat + 1))
  else pointed ['0'] (List.replicate (-e - 1).toNat '0' ++ digits)

/-- The text of a double with the default format and precision. -/
def text (x : Double) : String :=
  let magnitude : List Char :=
    match x.value with
    | none => ['n', 'a', 'n']
    | some _ =>
      if x.exponent.val = 2047 then ['i', 'n', 'f']
      else if x.significand = 0 then ['0'] else positiveText |x.toRat|
  String.ofList (if x.sign then '-' :: magnitude else magnitude)

/-- The text of a double with six digits after the point. -/
def fixedText (x : Double) : String :=
  let magnitude : List Char :=
    match x.value with
    | none => ['n', 'a', 'n']
    | some _ =>
      if x.exponent.val = 2047 then ['i', 'n', 'f']
      else
        let n := (roundHalfEven (|x.toRat| * 10 ^ 6)).toNat
        let fraction := Nat.toDigits 10 (n % 10 ^ 6)
        Nat.toDigits 10 (n / 10 ^ 6) ++
          '.' :: (List.replicate (6 - fraction.length) '0' ++ fraction)
  String.ofList (if x.sign then '-' :: magnitude else magnitude)

example : ((ofInt (-2 ^ 63)).text, (ofInt 65535).text, (ofInt (-100)).text) =
    ("-9.22337e+18", "65535", "-100") := by decide +kernel

/-! ### Conversions -/

theorem significand_lt (x : Double) : x.significand < 2 ^ 53 := by
  have hfraction := x.fraction.isLt
  unfold significand
  split_ifs <;> omega

theorem truncate_magnitude (x : Double) :
    ∃ m k : ℕ, m < 2 ^ 53 ∧ truncate (x.significand * 2 ^ x.scale) = ((m * 2 ^ k : ℕ) : ℤ) := by
  have hnonneg : (0 : ℚ) ≤ x.significand * 2 ^ x.scale := by positivity
  rw [truncate, if_pos hnonneg]
  obtain ⟨k, hk | hk⟩ := Int.eq_nat_or_neg x.scale
  · refine ⟨x.significand, k, significand_lt x, ?_⟩
    rw [hk, zpow_natCast]
    exact_mod_cast Int.floor_natCast (R := ℚ) (x.significand * 2 ^ k)
  · refine ⟨x.significand / 2 ^ k, 0, (Nat.div_le_self _ _).trans_lt (significand_lt x), ?_⟩
    rw [hk, zpow_neg, zpow_natCast, ← div_eq_mul_inv, pow_zero, mul_one]
    exact_mod_cast Rat.floor_natCast_div_natCast x.significand (2 ^ k)

theorem exists_natAbs_truncate (x : Double) :
    ∃ m k : ℕ, m < 2 ^ 53 ∧ (truncate x.toRat).natAbs = m * 2 ^ k := by
  obtain ⟨m, k, hm, htruncate⟩ := truncate_magnitude x
  refine ⟨m, k, hm, ?_⟩
  unfold toRat
  split_ifs
  · rw [neg_one_mul, truncate_neg, htruncate, Int.natAbs_neg, Int.natAbs_natCast]
  · rw [one_mul, htruncate, Int.natAbs_natCast]

section exact

variable {n m k : ℕ}

theorem exists_scaled (hn : n ≠ 0) (hm : m < 2 ^ 53) (h : n = m * 2 ^ k) :
    ∃ M : ℕ, 2 ^ 52 ≤ M ∧ M < 2 ^ 53 ∧ (n : ℚ) * 2 ^ (52 - (Nat.log 2 n : ℤ)) = M := by
  have hlow : 2 ^ Nat.log 2 n ≤ n := Nat.pow_log_le_self 2 hn
  have hhigh : n < 2 ^ (Nat.log 2 n + 1) := Nat.lt_pow_succ_log_self (by norm_num) n
  generalize Nat.log 2 n = e at hlow hhigh
  obtain he | he := Nat.le_total e 52
  · obtain ⟨d, hd⟩ := Nat.exists_eq_add_of_le he
    have hexp : (52 : ℤ) - e = d := by omega
    refine ⟨n * 2 ^ d, ?_, ?_, by rw [hexp, zpow_natCast]; push_cast; rfl⟩
    · calc 2 ^ 52 = 2 ^ e * 2 ^ d := by rw [hd, pow_add]
        _ ≤ n * 2 ^ d := Nat.mul_le_mul_right _ hlow
    · calc n * 2 ^ d < 2 ^ (e + 1) * 2 ^ d := Nat.mul_lt_mul_of_pos_right hhigh (by positivity)
        _ = 2 ^ 53 := by rw [← pow_add]; congr 1; omega
  · obtain ⟨d, rfl⟩ := Nat.exists_eq_add_of_le he
    have hdvd : 2 ^ d ∣ n := by
      have hlt : 2 ^ (52 + d) < 2 ^ (53 + k) := by
        calc 2 ^ (52 + d) ≤ m * 2 ^ k := h ▸ hlow
          _ < 2 ^ 53 * 2 ^ k := Nat.mul_lt_mul_of_pos_right hm (by positivity)
          _ = 2 ^ (53 + k) := (pow_add 2 53 k).symm
      have hdk : d ≤ k := by
        have hexp := (Nat.pow_lt_pow_iff_right (by norm_num)).1 hlt
        omega
      exact h ▸ Dvd.dvd.mul_left (Nat.pow_dvd_pow 2 hdk) m
    obtain ⟨M, rfl⟩ := hdvd
    have hexp : (52 : ℤ) - (52 + d : ℕ) = -d := by omega
    have hlow' : 2 ^ d * 2 ^ 52 ≤ 2 ^ d * M := by rwa [← pow_add, Nat.add_comm d]
    have hhigh' : 2 ^ d * M < 2 ^ d * 2 ^ 53 := by
      rwa [← pow_add, Nat.add_comm d, Nat.add_right_comm 52 1 d]
    refine ⟨M, Nat.le_of_mul_le_mul_left hlow' (Nat.two_pow_pos d),
      Nat.lt_of_mul_lt_mul_left hhigh', ?_⟩
    rw [hexp, zpow_neg, zpow_natCast]
    push_cast
    field_simp

theorem value_ofInt {z : ℤ} (hlog : Nat.log 2 z.natAbs < 1024) (hm : m < 2 ^ 53)
    (h : z.natAbs = m * 2 ^ k) : (ofInt z).value = some (Extended.ofRat z) := by
  by_cases hz : z = 0
  · subst hz
    decide +kernel
  obtain ⟨M, hlow, hhigh, hscaled⟩ := exists_scaled (Int.natAbs_ne_zero.2 hz) hm h
  have habs : |(z : ℚ)| = (z.natAbs : ℚ) := by rw [Nat.cast_natAbs, Int.cast_abs]
  have he : max (Int.log 2 |(z : ℚ)|) (-1022) = (Nat.log 2 z.natAbs : ℤ) := by
    rw [habs, Int.log_natCast]
    exact max_eq_left (by omega)
  generalize Nat.log 2 z.natAbs = e at hlog hscaled he
  have hbits : (((e : ℤ) + 1022) * 2 ^ 52 + roundHalfEven M).toNat = (e + 1022) * 2 ^ 52 + M := by
    have hround : roundHalfEven M = M := by exact_mod_cast roundHalfEven_intCast M
    rw [hround]
    omega
  have hexponent : ((e + 1022) * 2 ^ 52 + M) / 2 ^ 52 = e + 1023 := by omega
  have hfraction : ((e + 1022) * 2 ^ 52 + M) % 2 ^ 52 = M - 2 ^ 52 := by omega
  generalize hdouble : ofInt z = x
  have hfield : x.exponent.val = e + 1023 ∧ x.fraction.val = M - 2 ^ 52 ∧
      x.sign = decide (z < 0) := by
    rw [ofInt, ofRat, if_neg (Int.cast_ne_zero.2 hz)] at hdouble
    simp only [he] at hdouble
    rw [habs, hscaled, hbits, ofFields, hexponent, if_pos (by omega)] at hdouble
    subst hdouble
    exact ⟨Nat.mod_eq_of_lt (by omega), hfraction, by simp⟩
  obtain ⟨hxe, hxf, hxs⟩ := hfield
  have hsignificand : x.significand = M := by
    rw [significand, if_neg (by omega), hxf]
    omega
  have hscale : x.scale = -(52 - (e : ℤ)) := by
    rw [scale, hxe]
    omega
  have hmagnitude : (x.significand : ℚ) * 2 ^ x.scale = |(z : ℚ)| := by
    rw [hsignificand, hscale, ← hscaled, habs, zpow_neg, mul_inv_cancel_right₀ (by positivity)]
  have hvalue : x.toRat = z := by
    rw [toRat, hmagnitude, hxs]
    obtain hneg | hpos := lt_or_ge z 0
    · rw [if_pos (by simpa using hneg), abs_of_neg (Int.cast_lt_zero.2 hneg), neg_one_mul, neg_neg]
    · rw [if_neg (by simpa using hpos), abs_of_nonneg (Int.cast_nonneg hpos), one_mul]
  rw [value, if_neg (by omega), hvalue]

end exact

theorem toRat_of_value {x : Double} {q : ℚ} (h : x.value = some (Extended.ofRat q)) :
    x.toRat = q := by
  unfold value at h
  split_ifs at h
  · cases h
  · cases h
  · exact WithTop.coe_injective (WithBot.coe_injective (Option.some.inj h))

/-- The double truncates to a signed integer of 64 bits. -/
def FitsInt64 (x : Double) : Prop :=
  ∃ q : ℚ, x.value = some (Extended.ofRat q) ∧ -2 ^ 63 ≤ truncate q ∧ truncate q < 2 ^ 63

theorem fitsInt64_iff {x : Double} {q : ℚ} (hx : x.value = some (Extended.ofRat q)) :
    x.FitsInt64 ↔ -2 ^ 63 ≤ truncate q ∧ truncate q < 2 ^ 63 := by
  simp [FitsInt64, hx, Extended.ofRat]

theorem FitsInt64.of_mem {x : Double} {q : ℚ} (hx : x.value = some (Extended.ofRat q))
    (hlow : -2 ^ 63 ≤ q) (hhigh : q < 2 ^ 63) : x.FitsInt64 := by
  refine (fitsInt64_iff hx).2 ⟨?_, ?_⟩
  · exact le_truncate (by norm_num) (by exact_mod_cast hlow)
  · exact truncate_lt (by norm_num) (by exact_mod_cast hhigh)

/-- A double that fits loses its fraction in the conversion, and nothing else. -/
theorem toInt64_of_fits {x : Double} (h : x.FitsInt64) :
    ∃ n : Int64, x.toInt64 = some n ∧ x.value = some (Extended.ofRat x.toRat) ∧
      truncate x.toRat = n.toInt ∧ (ofInt n.toInt).value = some (Extended.ofRat n.toInt) := by
  obtain ⟨q, hvalue, hlow, hhigh⟩ := h
  obtain rfl := toRat_of_value hvalue
  have hto : (Int64.ofInt (truncate x.toRat)).toInt = truncate x.toRat :=
    Int64.toInt_ofInt_of_le hlow hhigh
  obtain ⟨m, k, hm, htruncate⟩ := exists_natAbs_truncate x
  have hlog : Nat.log 2 (truncate x.toRat).natAbs < 64 :=
    Nat.log_lt_of_lt_pow' (by norm_num) (by omega)
  refine ⟨Int64.ofInt (truncate x.toRat), ?_, hvalue, hto.symm, ?_⟩
  · rw [toInt64, hvalue]
    exact if_pos ⟨hlow, hhigh⟩
  · rw [hto]
    exact value_ofInt (hlog.trans (by norm_num)) hm htruncate

theorem toInt64_of_not_fits {x : Double} (h : ¬ x.FitsInt64) : x.toInt64 = none := by
  unfold toInt64
  split
  · next q hvalue => exact if_neg fun hfits => h ⟨q, hvalue, hfits⟩
  · rfl

end Double
end Nanonet
