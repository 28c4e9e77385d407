import Nanonet.Lib.Decimal
import Nanonet.Lib.Double

/-!
# Fixed point notation

What `printf` makes of a number with `%0w.pf`: its sign, zeros up to the width `w`, and its magnitude
with `p` digits after the point, rounded to the nearest and in the middle to the even one.
-/

namespace Nanonet

/-- The magnitude `q` with `precision` digits after the point; there is no point without digits. -/
def pointDigits (precision : ℕ) (q : ℚ) : List Char :=
  let n := (roundHalfEven (q * 10 ^ precision)).toNat
  Nat.toDigits 10 (n / 10 ^ precision) ++
    if precision = 0 then [] else '.' :: padded precision (n % 10 ^ precision)

/-- The sign, zeros up to the width, and the magnitude. -/
def zeroFilled (width : ℕ) (negative : Bool) (digits : List Char) : List Char :=
  let sign := if negative then ['-'] else []
  sign ++ (List.replicate (width - (sign.length + digits.length)) '0' ++ digits)

theorem length_zeroFilled (width : ℕ) (negative : Bool) (digits : List Char) :
    (zeroFilled width negative digits).length =
      max width ((if negative then 1 else 0) + digits.length) := by
  cases negative <;> simp [zeroFilled] <;> omega

theorem pointDigits_zero_natCast (n : ℕ) : pointDigits 0 n = Nat.toDigits 10 n := by
  have hround : roundHalfEven n = n := by exact_mod_cast roundHalfEven_intCast n
  simp [pointDigits, hround]

theorem pointDigits_one_tenths (n : ℕ) :
    pointDigits 1 (n / 10) = Nat.toDigits 10 (n / 10) ++ '.' :: Nat.toDigits 10 (n % 10) := by
  have hround : roundHalfEven n = n := by exact_mod_cast roundHalfEven_intCast n
  have hscale : (n / 10 : ℚ) * 10 ^ 1 = n := by ring
  rw [pointDigits, hscale, hround]
  simp [padded_one]

theorem zeroFilled_toDigits (width n : ℕ) :
    zeroFilled width false (Nat.toDigits 10 n) = padded width n := by
  simp [zeroFilled, padded]

theorem zeroFilled_append (width n : ℕ) (fraction : List Char) :
    zeroFilled (width + fraction.length) false (Nat.toDigits 10 n ++ fraction) =
      padded width n ++ fraction := by
  have hfill : width + fraction.length - ((Nat.toDigits 10 n).length + fraction.length) =
      width - (Nat.toDigits 10 n).length := by omega
  simp [zeroFilled, padded, hfill]

/-! ### Lengths -/

/-- The length of the point and the digits after it. -/
def fractionLength (precision : ℕ) : ℕ := if precision = 0 then 0 else precision + 1

theorem length_pointDigits (precision : ℕ) (q : ℚ) :
    (pointDigits precision q).length =
      (Nat.toDigits 10 ((roundHalfEven (q * 10 ^ precision)).toNat / 10 ^ precision)).length +
        fractionLength precision := by
  rw [pointDigits, List.length_append, fractionLength]
  split_ifs with h
  · rfl
  · have hlt := Nat.mod_lt (roundHalfEven (q * 10 ^ precision)).toNat
      (Nat.pow_pos (n := precision) (by decide : 0 < 10))
    rw [List.length_cons, length_padded_of_lt (Nat.pos_of_ne_zero h) hlt]

end Nanonet
