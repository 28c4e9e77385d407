import Mathlib.Data.Nat.Digits.Defs
import Mathlib.Data.List.Basic

/-!
# The bytes of a bit vector

The bytes of a bit vector, the least significant one first, and the bit vector with given bytes. The
two are inverse to each other at every width of whole bytes, and the bytes are the digits of the
number to the base 256.
-/

namespace Nanonet

abbrev Byte := BitVec 8

namespace Bytes

variable {w n : Nat}

/-- Byte `i` of a bit vector, counted from the least significant one. -/
def byteAt (v : BitVec w) (i : Nat) : Byte := (v >>> (8 * i)).setWidth 8

/-- The first `n` bytes, the least significant one first. -/
def bytesOf (n : Nat) (v : BitVec w) : List Byte := (List.range n).map (byteAt v)

/-- The bit vector with the given bytes, the least significant one first. -/
def ofBytes : List Byte → BitVec w
  | [] => 0
  | b :: bs => (ofBytes bs <<< 8) ||| b.setWidth w

@[simp] theorem length_bytesOf (n : Nat) (v : BitVec w) : (bytesOf n v).length = n := by
  simp [bytesOf]

theorem bytesOf_succ (n : Nat) (v : BitVec w) : bytesOf (n + 1) v = bytesOf n v ++ [byteAt v n] := by
  rw [bytesOf, List.range_succ, List.map_append]
  rfl

theorem getLsbD_byteAt (v : BitVec w) (i k : Nat) :
    (byteAt v i).getLsbD k = (decide (k < 8) && v.getLsbD (8 * i + k)) := by
  simp [byteAt]

theorem getElem?_bytesOf (v : BitVec w) {i : Nat} (h : i < n) :
    (bytesOf n v)[i]? = some (byteAt v i) := by
  rw [bytesOf, List.getElem?_map, List.getElem?_range h]
  rfl

theorem getLsbD_ofBytes (bs : List Byte) {j : Nat} (hj : j < w) :
    (ofBytes bs : BitVec w).getLsbD j = ((bs[j / 8]?).getD 0).getLsbD (j % 8) := by
  induction bs generalizing j with
  | nil => simp [ofBytes]
  | cons b bs ih =>
    simp only [ofBytes, BitVec.getLsbD_or, BitVec.getLsbD_shiftLeft, BitVec.getLsbD_setWidth, hj,
      decide_true, Bool.true_and]
    by_cases hlow : j < 8
    · have hdiv : j / 8 = 0 := by omega
      have hmod : j % 8 = j := by omega
      simp [hlow, hdiv, hmod]
    · have hdiv : j / 8 = (j - 8) / 8 + 1 := by omega
      have hmod : (j - 8) % 8 = j % 8 := by omega
      have hhigh : b.getLsbD j = false := BitVec.getLsbD_of_ge b j (by omega)
      rw [ih (by omega), hmod, hdiv, List.getElem?_cons_succ, hhigh]
      simp [hlow]

theorem ofBytes_concat (bs : List Byte) (b : Byte) :
    (ofBytes (bs ++ [b]) : BitVec w) = ofBytes bs ||| (b.setWidth w <<< (8 * bs.length)) := by
  induction bs with
  | nil => simp [ofBytes]
  | cons a bs ih =>
    rw [List.cons_append, ofBytes, ih, BitVec.shiftLeft_or_distrib, ← BitVec.shiftLeft_add,
      List.length_cons, ofBytes, BitVec.or_assoc, BitVec.or_assoc]
    congr 1
    rw [BitVec.or_comm, Nat.mul_add]

theorem ofBytes_bytesOf (hw : w ≤ 8 * n) (v : BitVec w) : ofBytes (bytesOf n v) = v := by
  apply BitVec.eq_of_getLsbD_eq
  intro j hj
  have hdiv : j / 8 < n := by omega
  have hmod : j % 8 < 8 := Nat.mod_lt _ (by omega)
  rw [getLsbD_ofBytes _ hj, getElem?_bytesOf v hdiv, Option.getD_some, getLsbD_byteAt,
    Nat.div_add_mod]
  simp [hmod]

theorem bytesOf_ofBytes {bs : List Byte} (hw : 8 * bs.length ≤ w) :
    bytesOf bs.length (ofBytes bs : BitVec w) = bs := by
  apply List.ext_getElem (length_bytesOf _ _)
  intro i hi hbs
  have hbyte : byteAt (ofBytes bs : BitVec w) i = bs[i] := by
    apply BitVec.eq_of_getLsbD_eq
    intro k hk
    have hdiv : (8 * i + k) / 8 = i := by omega
    have hmod : (8 * i + k) % 8 = k := by omega
    rw [getLsbD_byteAt, getLsbD_ofBytes _ (by omega), hdiv, hmod, List.getElem?_eq_getElem hbs]
    simp [hk]
  rw [← hbyte]
  simp [bytesOf]

theorem ofDigits_bytesOf (n : Nat) (v : BitVec w) :
    Nat.ofDigits 256 ((bytesOf n v).map BitVec.toNat) = v.toNat % 256 ^ n := by
  induction n with
  | zero => simp [bytesOf, Nat.mod_one]
  | succ n ih =>
    have hbyte : (byteAt v n).toNat = v.toNat / 256 ^ n % 256 := by
      have hpow : (256 : Nat) ^ n = 2 ^ (8 * n) := by rw [Nat.pow_mul]
      rw [byteAt, BitVec.toNat_setWidth, BitVec.toNat_ushiftRight, Nat.shiftRight_eq_div_pow, hpow]
    rw [bytesOf_succ, List.map_append, Nat.ofDigits_append, ih, List.length_map, length_bytesOf,
      List.map_singleton, Nat.ofDigits_singleton, hbyte, Nat.mod_pow_succ]

end Bytes

end Nanonet
