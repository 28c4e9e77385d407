import Nanonet.Xdr.Marshalling

/-!
# A float read as a double

`read_float` returns a `double`. Its caller gets the `float` back by the conversion in the other
direction, which rounds in general, but not what comes from a `float`. Only a NaN that signals is not
recovered: it is quiet after the first conversion.
-/

namespace Nanonet.Xdr

/-- The sign of a `float` in front of its exponent and fraction. -/
def floatOf (sign : Bool) (bits : Nat) : BitVec 32 := BitVec.ofBool sign ++ BitVec.ofNat 31 bits

/-- `m / 2 ^ n`, rounded to the nearest integer, and of two nearest ones to the even one. -/
def roundedShift (m n : Nat) : Nat :=
  let q := m / 2 ^ n
  let r := m % 2 ^ n
  if 2 ^ n < 2 * r ∨ (2 * r = 2 ^ n ∧ q % 2 = 1) then q + 1 else q

/-- The conversion from `double` to `float`, on patterns: the nearest `float`, or an infinity beyond
them. A NaN keeps the upper part of its fraction, and comes out quiet. -/
def doubleToFloat (d : BitVec 64) : BitVec 32 :=
  let sign := d.getLsbD 63
  let exponent := d.toNat / 2 ^ 52 % 2 ^ 11
  let fraction := d.toNat % 2 ^ 52
  if exponent = 2047 then
    floatOf sign (255 * 2 ^ 23 + if fraction = 0 then 0 else fraction / 2 ^ 29 ||| 2 ^ 22)
  else
    let significand := if exponent = 0 then fraction else 2 ^ 52 + fraction
    -- a carry out of the fraction goes to the exponent; below the normal floats more bits are lost
    let bits := (max exponent 1 - 897) * 2 ^ 23 +
      roundedShift significand (29 + (897 - max exponent 1))
    floatOf sign (min bits (255 * 2 ^ 23))

/-- The pattern of a NaN that signals. -/
def Signalling (b : BitVec 32) : Prop :=
  b.toNat / 2 ^ 23 % 2 ^ 8 = 255 ∧ b.toNat % 2 ^ 23 ≠ 0 ∧ b.getLsbD 22 = false

instance (b : BitVec 32) : Decidable (Signalling b) :=
  inferInstanceAs (Decidable (_ ∧ _ ∧ _))

/-! ### The fields -/

theorem toNat_doubleOf (sign : Bool) {exponent fraction : Nat} (he : exponent < 2 ^ 11)
    (hf : fraction < 2 ^ 52) :
    (doubleOf sign exponent fraction).toNat =
      (sign.toNat * 2 ^ 11 + exponent) * 2 ^ 52 + fraction := by
  rw [doubleOf, BitVec.toNat_append, BitVec.toNat_append, BitVec.toNat_ofBool, BitVec.toNat_ofNat,
    BitVec.toNat_ofNat, Nat.mod_eq_of_lt he, Nat.mod_eq_of_lt hf, ← Nat.shiftLeft_add_eq_or_of_lt hf,
    ← Nat.shiftLeft_add_eq_or_of_lt he, Nat.shiftLeft_eq, Nat.shiftLeft_eq]

theorem toNat_floatOf (sign : Bool) {bits : Nat} (h : bits < 2 ^ 31) :
    (floatOf sign bits).toNat = sign.toNat * 2 ^ 31 + bits := by
  rw [floatOf, BitVec.toNat_append, BitVec.toNat_ofBool, BitVec.toNat_ofNat, Nat.mod_eq_of_lt h,
    ← Nat.shiftLeft_add_eq_or_of_lt h, Nat.shiftLeft_eq]

theorem getLsbD_eq_of_toNat {w n m : Nat} {b : BitVec w} {sign : Bool}
    (h : b.toNat = sign.toNat * 2 ^ n + m) (hm : m < 2 ^ n) : b.getLsbD n = sign := by
  rw [BitVec.getLsbD, h, Nat.testBit_eq_decide_div_mod_eq, Nat.mul_comm,
    Nat.mul_add_div (Nat.two_pow_pos n), Nat.div_eq_of_lt hm]
  cases sign <;> rfl

theorem eq_floatOf (b : BitVec 32) :
    b = floatOf (b.getLsbD 31) (b.toNat / 2 ^ 23 % 2 ^ 8 * 2 ^ 23 + b.toNat % 2 ^ 23) := by
  have hlt := b.isLt
  have hbits : b.toNat / 2 ^ 23 % 2 ^ 8 * 2 ^ 23 + b.toNat % 2 ^ 23 = b.toNat % 2 ^ 31 := by omega
  have hsign : (b.getLsbD 31).toNat = b.toNat / 2 ^ 31 := by
    rw [BitVec.getLsbD, Nat.testBit_eq_decide_div_mod_eq]
    obtain hzero | hone : b.toNat / 2 ^ 31 = 0 ∨ b.toNat / 2 ^ 31 = 1 := by omega
    · rw [hzero]
      rfl
    · rw [hone]
      rfl
  refine BitVec.eq_of_toNat_eq ?_
  rw [hbits, toNat_floatOf _ (Nat.mod_lt _ (by decide)), hsign]
  omega

theorem floatOf_inj {sign : Bool} {m n : Nat} (hm : m < 2 ^ 31) (hn : n < 2 ^ 31) :
    floatOf sign m = floatOf sign n ↔ m = n := by
  refine ⟨fun h => ?_, fun h => by rw [h]⟩
  have htoNat := congrArg BitVec.toNat h
  rw [toNat_floatOf _ hm, toNat_floatOf _ hn] at htoNat
  omega

/-! ### There and back -/

theorem roundedShift_mul (m n : Nat) : roundedShift (m * 2 ^ n) n = m := by
  have hpos : 0 < 2 ^ n := Nat.two_pow_pos n
  rw [roundedShift, Nat.mul_div_cancel m hpos, Nat.mul_mod_left]
  exact if_neg (by omega)

theorem fields_doubleOf (sign : Bool) {exponent fraction : Nat} (he : exponent < 2 ^ 11)
    (hf : fraction < 2 ^ 52) :
    (doubleOf sign exponent fraction).getLsbD 63 = sign ∧
      (doubleOf sign exponent fraction).toNat / 2 ^ 52 % 2 ^ 11 = exponent ∧
      (doubleOf sign exponent fraction).toNat % 2 ^ 52 = fraction := by
  have htoNat := toNat_doubleOf sign he hf
  refine ⟨getLsbD_eq_of_toNat (m := exponent * 2 ^ 52 + fraction) ?_ (by omega), ?_, ?_⟩
  all_goals
    rw [htoNat]
    omega

theorem doubleToFloat_zero (sign : Bool) : doubleToFloat (doubleOf sign 0 0) = floatOf sign 0 := by
  obtain ⟨hsign, hexponent, hfraction⟩ := fields_doubleOf sign (by decide : 0 < 2 ^ 11)
    (by decide : 0 < 2 ^ 52)
  have hrounded (n : Nat) : roundedShift 0 n = 0 := by simpa using roundedShift_mul 0 n
  rw [doubleToFloat, hsign, hexponent, hfraction]
  simp [hrounded]

theorem doubleToFloat_normal (sign : Bool) {exponent fraction : Nat} (he : exponent < 2047)
    (hpos : 0 < exponent) (hf : fraction < 2 ^ 52) :
    doubleToFloat (doubleOf sign exponent fraction) =
      floatOf sign (min ((exponent - 897) * 2 ^ 23 +
        roundedShift (2 ^ 52 + fraction) (29 + (897 - exponent))) (255 * 2 ^ 23)) := by
  obtain ⟨hsign, hexponent, hfraction⟩ := fields_doubleOf sign (by omega : exponent < 2 ^ 11) hf
  rw [doubleToFloat, hsign, hexponent, hfraction]
  simp only [if_neg (Nat.ne_of_lt he), if_neg (Nat.ne_of_gt hpos), Nat.max_eq_left hpos]

theorem doubleToFloat_infinity (sign : Bool) :
    doubleToFloat (doubleOf sign 2047 0) = floatOf sign (255 * 2 ^ 23) := by
  obtain ⟨hsign, hexponent, hfraction⟩ := fields_doubleOf sign (by decide : 2047 < 2 ^ 11)
    (by decide : 0 < 2 ^ 52)
  rw [doubleToFloat, hsign, hexponent, hfraction]
  rfl

theorem doubleToFloat_nan (sign : Bool) {fraction : Nat} (hzero : fraction ≠ 0)
    (hf : fraction < 2 ^ 52) :
    doubleToFloat (doubleOf sign 2047 fraction) =
      floatOf sign (255 * 2 ^ 23 + (fraction / 2 ^ 29 ||| 2 ^ 22)) := by
  obtain ⟨hsign, hexponent, hfraction⟩ := fields_doubleOf sign (by decide : 2047 < 2 ^ 11) hf
  rw [doubleToFloat, hsign, hexponent, hfraction]
  simp only [if_pos, if_neg hzero]

theorem or_quiet_eq_iff (fraction : Nat) :
    fraction ||| 2 ^ 22 = fraction ↔ fraction.testBit 22 = true := by
  constructor
  · intro h
    rw [← h, Nat.testBit_or, Nat.testBit_two_pow_self, Bool.or_true]
  · intro h
    refine Nat.eq_of_testBit_eq fun i => ?_
    rw [Nat.testBit_or, Nat.testBit_two_pow]
    by_cases hi : 22 = i
    · rw [← hi, h]
      rfl
    · rw [decide_eq_false hi, Bool.or_false]

theorem quiet_shift (fraction : Nat) :
    (fraction * 2 ^ 29 ||| 2 ^ 51) / 2 ^ 29 ||| 2 ^ 22 = fraction ||| 2 ^ 22 := by
  have hshift : fraction * 2 ^ 29 ||| 2 ^ 51 = (fraction ||| 2 ^ 22) * 2 ^ 29 := by
    rw [← Nat.shiftLeft_eq, ← Nat.shiftLeft_eq, Nat.shiftLeft_or_distrib]
    rfl
  rw [hshift, Nat.mul_div_cancel _ (by decide), Nat.or_assoc, Nat.or_self]

theorem doubleToFloat_subnormal (sign : Bool) {fraction : Nat} (hzero : fraction ≠ 0)
    (hf : fraction < 2 ^ 23) :
    doubleToFloat (doubleOf sign (Nat.log2 fraction + 874)
        ((fraction - 2 ^ Nat.log2 fraction) * 2 ^ (52 - Nat.log2 fraction))) =
      floatOf sign fraction := by
  have htop : Nat.log2 fraction < 23 := (Nat.log2_lt hzero).2 hf
  have hle : 2 ^ Nat.log2 fraction ≤ fraction := Nat.log2_self_le hzero
  have hlt : fraction < 2 ^ (Nat.log2 fraction + 1) := Nat.lt_log2_self
  generalize Nat.log2 fraction = top at htop hle hlt ⊢
  -- the upmost bit becomes the hidden one
  have hsplit : 2 ^ top * 2 ^ (52 - top) = 2 ^ 52 := by
    rw [← Nat.pow_add]
    congr 1
    omega
  have hsignificand : 2 ^ 52 + (fraction - 2 ^ top) * 2 ^ (52 - top) = fraction * 2 ^ (52 - top) := by
    rw [← hsplit, ← Nat.add_mul, Nat.add_sub_cancel' hle]
  have hrest : (fraction - 2 ^ top) * 2 ^ (52 - top) < 2 ^ 52 := by
    rw [← hsplit]
    exact Nat.mul_lt_mul_of_pos_right (by omega) (Nat.two_pow_pos _)
  rw [doubleToFloat_normal sign (by omega) (by omega) hrest, hsignificand,
    show 29 + (897 - (top + 874)) = 52 - top by omega, roundedShift_mul,
    show top + 874 - 897 = 0 by omega, Nat.zero_mul, Nat.zero_add, Nat.min_eq_left (by omega)]

theorem doubleToFloat_scaled (sign : Bool) {exponent fraction : Nat} (he : exponent < 255)
    (hpos : 0 < exponent) (hf : fraction < 2 ^ 23) :
    doubleToFloat (doubleOf sign (exponent + 896) (fraction * 2 ^ 29)) =
      floatOf sign (exponent * 2 ^ 23 + fraction) := by
  have hsignificand : 2 ^ 52 + fraction * 2 ^ 29 = (2 ^ 23 + fraction) * 2 ^ 29 := by omega
  have hbits : (exponent + 896 - 897) * 2 ^ 23 + (2 ^ 23 + fraction) = exponent * 2 ^ 23 + fraction := by
    omega
  rw [doubleToFloat_normal sign (by omega) (by omega) (by omega), hsignificand,
    show 29 + (897 - (exponent + 896)) = 29 by omega, roundedShift_mul, hbits,
    Nat.min_eq_left (by omega)]

/-- The conversion to `double` and back recovers every pattern but those of a NaN that signals. -/
theorem doubleToFloat_floatToDouble_iff (b : BitVec 32) :
    doubleToFloat (floatToDouble b) = b ↔ ¬ Signalling b := by
  have hfields := eq_floatOf b
  have hquiet : b.getLsbD 22 = (b.toNat % 2 ^ 23).testBit 22 := by
    rw [BitVec.getLsbD, Nat.testBit_mod_two_pow]
    rfl
  rw [floatToDouble, Signalling, hquiet]
  generalize b.getLsbD 31 = sign at hfields ⊢
  have hexponent : b.toNat / 2 ^ 23 % 2 ^ 8 < 2 ^ 8 := Nat.mod_lt _ (by decide)
  have hfraction : b.toNat % 2 ^ 23 < 2 ^ 23 := Nat.mod_lt _ (by decide)
  generalize b.toNat / 2 ^ 23 % 2 ^ 8 = exponent at hfields hexponent ⊢
  generalize b.toNat % 2 ^ 23 = fraction at hfields hfraction ⊢
  simp only
  split_ifs with hmax hzero hsub hzero
  · -- an infinity
    subst hmax hzero
    rw [doubleToFloat_infinity]
    exact iff_of_true hfields.symm (by simp)
  · -- a NaN
    subst hmax
    have hlt : fraction * 2 ^ 29 ||| 2 ^ 51 < 2 ^ 52 :=
      Nat.or_lt_two_pow (by omega) (by decide)
    have hne : fraction * 2 ^ 29 ||| 2 ^ 51 ≠ 0 :=
      Nat.ne_of_gt (Nat.lt_of_lt_of_le (by decide) Nat.right_le_or)
    have hor : fraction ||| 2 ^ 22 < 2 ^ 23 := Nat.or_lt_two_pow hfraction (by decide)
    rw [doubleToFloat_nan sign hne hlt, quiet_shift, hfields, floatOf_inj (by omega) (by omega),
      Nat.add_left_cancel_iff, or_quiet_eq_iff]
    simp [hzero]
  · -- a zero
    subst hsub hzero
    rw [doubleToFloat_zero]
    exact iff_of_true hfields.symm (by simp)
  · subst hsub
    rw [doubleToFloat_subnormal sign hzero hfraction, hfields, Nat.zero_mul, Nat.zero_add]
    exact iff_of_true rfl (by simp)
  · rw [doubleToFloat_scaled sign (by omega) (by omega) hfraction]
    exact iff_of_true hfields.symm (by simp [hmax])

end Nanonet.Xdr
