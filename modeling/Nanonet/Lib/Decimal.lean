import Mathlib.Algebra.Group.Nat.Defs
import Mathlib.Data.List.TakeWhile

/-!
# Decimal numbers of a width

A number in decimal, with zeros in front of it up to a width, and how such a field is read back from
the text that follows.
-/

namespace Nanonet

/-- The decimal digits of a number, and zeros before them up to the width. -/
def padded (width n : ℕ) : List Char :=
  List.replicate (width - (Nat.toDigits 10 n).length) '0' ++ Nat.toDigits 10 n

theorem padded_zero (n : ℕ) : padded 0 n = Nat.toDigits 10 n := by
  simp [padded]

theorem padded_one (n : ℕ) : padded 1 n = Nat.toDigits 10 n := by
  have hpos : 0 < (Nat.toDigits 10 n).length := Nat.length_toDigits_pos
  rw [padded, Nat.sub_eq_zero_of_le hpos, List.replicate_zero, List.nil_append]

theorem padded_ne_nil (width n : ℕ) : padded width n ≠ [] := by
  simp [padded]

theorem length_padded_of_lt {width n : ℕ} (hwidth : 0 < width) (h : n < 10 ^ width) :
    (padded width n).length = width := by
  have hle := (Nat.length_toDigits_le_iff (by decide) hwidth).2 h
  rw [padded, List.length_append, List.length_replicate]
  omega

theorem isDigit_of_mem_padded {width n : ℕ} {c : Char} (h : c ∈ padded width n) :
    c.isDigit = true := by
  rcases List.mem_append.1 h with h | h
  · rw [List.eq_of_mem_replicate h]
    rfl
  · exact Nat.isDigit_of_mem_toDigits (by decide) (by decide) h

theorem ofDigitChars_padded (width n : ℕ) : Nat.ofDigitChars 10 (padded width n) 0 = n := by
  rw [padded, Nat.ofDigitChars_append, Nat.ofDigitChars_replicate_zero, Nat.mul_zero,
    Nat.ofDigitChars_ten_toDigits]

/-- A number of at most `width` digits, and what follows it. -/
def readField (width : ℕ) (s : List Char) : Option (ℕ × List Char) :=
  match (s.take width).takeWhile Char.isDigit with
  | [] => none
  | digits => some (Nat.ofDigitChars 10 digits 0, s.drop digits.length)

theorem readField_padded {width n : ℕ} (hwidth : 0 < width) (h : n < 10 ^ width)
    (rest : List Char) : readField width (padded width n ++ rest) = some (n, rest) := by
  have hlength := length_padded_of_lt hwidth h
  have htake : ((padded width n ++ rest).take width).takeWhile Char.isDigit = padded width n := by
    rw [List.take_left' hlength, List.takeWhile_eq_self_iff]
    exact fun c hc => isDigit_of_mem_padded hc
  obtain ⟨c, cs, hcs⟩ := List.exists_cons_of_ne_nil (padded_ne_nil width n)
  rw [readField, htake, hcs]
  simp only [← hcs, ofDigitChars_padded, List.drop_left]

end Nanonet
