import Mathlib.Data.Set.Basic
import Mathlib.Order.Bounds.Basic
import Nanonet.Xdr.Marshalling

/-!
# Reading back what was written

`Item.encode` is the format: the bytes of one item. Every writer puts down the encoding of its item
and nothing else, every reader takes the encoding of its item and stops behind it, so a sequence of
items is read back in step. The encoding of an integer is its two's complement, the most significant
byte first, and reading and writing an integer are inverse to each other in both directions.
-/

namespace Nanonet.Xdr

variable {isSigned : Bool} {bits : Bits} {w : Nat}

/-! ### The iterator -/

namespace Cursor

theorem putAll_eq (c : Cursor) (bs : List Byte) :
    c.putAll bs = ⟨c.mem.fill c.it bs, c.it + bs.length⟩ := by
  induction bs generalizing c with
  | nil => simp [putAll]
  | cons b bs ih =>
    have happend := Memory.fill_append c.mem c.it [b] bs
    rw [putAll, List.foldl_cons, ← putAll, ih (c.put b), put, Memory.store]
    simp only [List.length_cons, List.length_nil, List.singleton_append] at happend ⊢
    rw [← happend]
    congr 1
    omega

theorem putAll_append (c : Cursor) (bs cs : List Byte) :
    c.putAll (bs ++ cs) = (c.putAll bs).putAll cs := List.foldl_append

theorem take_eq (n : Nat) (c : Cursor) : take n c = (c.mem.block c.it n, ⟨c.mem, c.it + n⟩) := by
  induction n generalizing c with
  | zero => rfl
  | succ n ih =>
    rw [take, ih, Memory.block_succ]
    simp only [next, get, Prod.mk.injEq, Cursor.mk.injEq, true_and]
    omega

end Cursor

open Cursor

/-! ### Integers -/

theorem setWidth_and_mask (v : BitVec w) (i : Nat) :
    ((v >>> (8 * i)) &&& 0xff).setWidth 8 = Bytes.byteAt v i := by
  apply BitVec.eq_of_getLsbD_eq
  intro k hk
  have hmask : (0xff : BitVec w).getLsbD k = decide (k < w) := by
    have hbit : Nat.testBit 255 k = true := by
      rw [show 255 = 2 ^ 8 - 1 from rfl, Nat.testBit_two_pow_sub_one, decide_eq_true hk]
    rw [BitVec.ofNat_eq_ofNat, BitVec.getLsbD_ofNat, hbit, Bool.and_true]
  rw [Bytes.getLsbD_byteAt, BitVec.getLsbD_setWidth, BitVec.getLsbD_and, hmask,
    BitVec.getLsbD_ushiftRight]
  rcases Nat.lt_or_ge k w with hw | hw
  · rw [decide_eq_true hw, Bool.and_true]
  · rw [BitVec.getLsbD_of_ge v _ (by omega), Bool.false_and]

theorem writeLoop_eq (v : BitVec w) (n : Nat) (c : Cursor) :
    writeLoop v n c = c.putAll (Bytes.bytesOf n v).reverse := by
  induction n generalizing c with
  | zero => rfl
  | succ n ih =>
    rw [writeLoop, ih, setWidth_and_mask, Bytes.bytesOf_succ, List.reverse_append]
    rfl

theorem readLoop_eq (n : Nat) (us : BitVec w) (c : Cursor) :
    readLoop n us c =
      (us ||| Bytes.ofBytes (c.mem.block c.it n).reverse, ⟨c.mem, c.it + n⟩) := by
  induction n generalizing us c with
  | zero => simp [readLoop, Bytes.ofBytes]
  | succ n ih =>
    rw [readLoop, ih, Memory.block_succ, List.reverse_cons, Bytes.ofBytes_concat,
      List.length_reverse, Memory.length_block, BitVec.or_assoc]
    simp only [next, Cursor.get, Prod.mk.injEq, Cursor.mk.injEq, true_and]
    refine ⟨?_, by omega⟩
    rw [BitVec.or_comm (Bytes.ofBytes _)]

theorem Integer.toNat_toUnsigned (v : Integer isSigned bits) :
    (v.toUnsigned.toNat : Int) = v.val % 2 ^ bits.width := by
  rw [Integer.toUnsigned, BitVec.toNat_ofInt, Int.toNat_of_nonneg (Int.emod_nonneg _ (by positivity))]
  norm_cast

theorem Integer.ofUnsigned_toUnsigned (v : Integer isSigned bits) :
    Integer.ofUnsigned isSigned v.toUnsigned = v := by
  have hpos : 0 < bits.width := by cases bits <;> decide
  obtain ⟨z, hz⟩ := v
  ext
  cases isSigned with
  | true =>
    exact BitVec.toInt_ofInt_eq_self hpos hz.1 hz.2
  | false =>
    have hnat := Integer.toNat_toUnsigned (⟨z, hz⟩ : Integer false bits)
    rw [Int.emod_eq_of_lt hz.1 hz.2] at hnat
    exact hnat

theorem Integer.toUnsigned_ofUnsigned (us : BitVec bits.width) :
    (Integer.ofUnsigned isSigned us).toUnsigned = us := by
  cases isSigned with
  | true => exact BitVec.ofInt_toInt
  | false =>
    change BitVec.ofInt _ ((us.toNat : Int)) = us
    rw [BitVec.ofInt_natCast, BitVec.ofNat_toNat, BitVec.setWidth_eq]

/-- The bytes of the two's complement, the most significant one first. -/
def Integer.encode (v : Integer isSigned bits) : List Byte :=
  (Bytes.bytesOf bits.size v.toUnsigned).reverse

theorem Integer.length_encode (v : Integer isSigned bits) : v.encode.length = bits.size := by
  rw [Integer.encode, List.length_reverse, Bytes.length_bytesOf]

theorem write_eq (v : Integer isSigned bits) (c : Cursor) : write v c = c.putAll v.encode :=
  writeLoop_eq _ _ _

theorem readInteger_eq (isSigned : Bool) (bits : Bits) (c : Cursor) :
    readInteger isSigned bits c =
      (Integer.ofUnsigned isSigned (Bytes.ofBytes (c.mem.block c.it bits.size).reverse),
        ⟨c.mem, c.it + bits.size⟩) := by
  simp only [readInteger, readLoop_eq, BitVec.ofNat_eq_ofNat, BitVec.zero_or]

theorem readInteger_encode {v : Integer isSigned bits} {c : Cursor}
    (h : c.mem.block c.it bits.size = v.encode) :
    readInteger isSigned bits c = (v, ⟨c.mem, c.it + bits.size⟩) := by
  rw [readInteger_eq, h, Integer.encode, List.reverse_reverse, Bytes.ofBytes_bytesOf le_rfl,
    Integer.ofUnsigned_toUnsigned]

theorem encode_readInteger (isSigned : Bool) (bits : Bits) (c : Cursor) :
    (readInteger isSigned bits c).1.encode = c.mem.block c.it bits.size := by
  have hbytes : Bytes.bytesOf (c.mem.block c.it bits.size).reverse.length
      (Bytes.ofBytes (c.mem.block c.it bits.size).reverse : BitVec bits.width) =
        (c.mem.block c.it bits.size).reverse := Bytes.bytesOf_ofBytes (by simp)
  rw [List.length_reverse, Memory.length_block] at hbytes
  rw [readInteger_eq, Integer.encode, Integer.toUnsigned_ofUnsigned, hbytes, List.reverse_reverse]

theorem Integer.ofDigits_encode (v : Integer isSigned bits) :
    ((Nat.ofDigits 256 (v.encode.reverse.map BitVec.toNat) : Nat) : Int) =
      v.val % 2 ^ bits.width := by
  have hpow : 256 ^ bits.size = 2 ^ bits.width := by rw [Nat.pow_mul]
  rw [Integer.encode, List.reverse_reverse, Bytes.ofDigits_bytesOf, hpow,
    Nat.mod_eq_of_lt (BitVec.isLt _), Integer.toNat_toUnsigned]

/-! ### Floating point -/

theorem Endian.length_bytes (host : Endian) (n : Nat) (v : BitVec w) :
    (host.bytes n v).length = n := by
  cases host <;> simp [Endian.bytes]

theorem Endian.object_bytes (host : Endian) (n : Nat) (v : BitVec (8 * n)) :
    host.object (host.bytes n v) = v := by
  cases host with
  | little => exact Bytes.ofBytes_bytesOf le_rfl v
  | big =>
    rw [Endian.object, Endian.bytes, List.reverse_reverse]
    exact Bytes.ofBytes_bytesOf le_rfl v

theorem readRaw_eq (host : Endian) (n : Nat) (c : Cursor) :
    readRaw host n c = (host.object (c.mem.block c.it n), ⟨c.mem, c.it + n⟩) := by
  rw [readRaw, take_eq]

theorem readRaw_bytes {host : Endian} {n : Nat} {v : BitVec (8 * n)} {c : Cursor}
    (h : c.mem.block c.it n = host.bytes n v) :
    readRaw host n c = (v, ⟨c.mem, c.it + n⟩) := by
  rw [readRaw_eq, h, Endian.object_bytes]

/-! ### Strings -/

theorem pad_eq (n : Nat) (c : Cursor) : pad n c = c.putAll (List.replicate n 0) := by
  induction n generalizing c with
  | zero => rfl
  | succ n ih => rw [pad, ih, List.replicate_succ, putAll, putAll, List.foldl_cons]

theorem skip_eq (n : Nat) (c : Cursor) : skip n c = ⟨c.mem, c.it + n⟩ := by
  induction n generalizing c with
  | zero => rfl
  | succ n ih =>
    rw [skip, ih]
    simp only [next, Cursor.mk.injEq, true_and]
    omega

theorem padsize_le (n : Nat) : padsize n ≤ 3 := by
  unfold padsize
  split <;> omega

theorem isLeast_padsize (n : Nat) : IsLeast {m | 4 ∣ m ∧ n ≤ m} (n + padsize n) := by
  have hdvd : 4 ∣ n + padsize n := by
    unfold padsize
    split <;> omega
  refine ⟨⟨hdvd, Nat.le_add_right _ _⟩, ?_⟩
  rintro m ⟨hm, hn⟩
  have hle := padsize_le n
  omega

def encodeString (s : List Byte) : List Byte := s ++ List.replicate (padsize s.length) 0

theorem length_encodeString (s : List Byte) :
    (encodeString s).length = s.length + padsize s.length := by
  simp [encodeString]

theorem writeString_eq (s : List Byte) (c : Cursor) :
    writeString s c = c.putAll (encodeString s) := by
  rw [writeString, pad_eq, encodeString, putAll_append]

theorem readString_encode {s : List Byte} {c : Cursor}
    (h : c.mem.block c.it (s.length + padsize s.length) = encodeString s) :
    readString s.length c = (s, ⟨c.mem, c.it + (s.length + padsize s.length)⟩) := by
  rw [Memory.block_add, encodeString] at h
  have hs := (List.append_inj h (by simp)).1
  rw [readString, take_eq, hs, skip_eq]
  simp only [Nat.add_assoc]

/-! ### Sequences of items -/

def Item.encode (host : Endian) : Item → List Byte
  | integer _ _ v => v.encode
  | float v => host.bytes 4 v
  | double v => host.bytes 8 v
  | string s => encodeString s

theorem Item.write_eq (host : Endian) (i : Item) (c : Cursor) :
    i.write host c = c.putAll (i.encode host) := by
  cases i with
  | integer isSigned bits v => exact Xdr.write_eq v c
  | float v => rfl
  | double v => rfl
  | string s => exact writeString_eq s c

theorem Item.read_encode {host : Endian} {i : Item} {c : Cursor}
    (h : c.mem.block c.it (i.encode host).length = i.encode host) :
    i.shape.read host c = (i, ⟨c.mem, c.it + (i.encode host).length⟩) := by
  cases i with
  | integer isSigned bits v =>
    simp only [Item.encode, Integer.length_encode] at h ⊢
    rw [Item.shape, Shape.read, readInteger_encode h]
  | float v =>
    simp only [Item.encode, Endian.length_bytes] at h ⊢
    rw [Item.shape, Shape.read, readRaw_bytes h]
  | double v =>
    simp only [Item.encode, Endian.length_bytes] at h ⊢
    rw [Item.shape, Shape.read, readRaw_bytes h]
  | string s =>
    simp only [Item.encode, length_encodeString] at h ⊢
    rw [Item.shape, Shape.read, readString_encode h]

theorem writeAll_eq (host : Endian) (items : List Item) (c : Cursor) :
    writeAll host items c = c.putAll (items.flatMap (Item.encode host)) := by
  induction items generalizing c with
  | nil => rfl
  | cons i items ih =>
    rw [List.flatMap_cons, putAll_append, ← Item.write_eq]
    exact ih (i.write host c)

theorem readAll_encode {host : Endian} {items : List Item} {c : Cursor}
    (h : c.mem.block c.it (items.flatMap (Item.encode host)).length =
      items.flatMap (Item.encode host)) :
    readAll host (items.map Item.shape) c =
      (items, ⟨c.mem, c.it + (items.flatMap (Item.encode host)).length⟩) := by
  induction items generalizing c with
  | nil => rfl
  | cons i items ih =>
    rw [List.flatMap_cons, List.length_append, Memory.block_add] at h
    obtain ⟨hfirst, hrest⟩ := List.append_inj h (by simp)
    rw [List.map_cons, readAll, Item.read_encode hfirst, ih hrest, List.flatMap_cons,
      List.length_append, Nat.add_assoc]

theorem readAll_writeAll (host : Endian) (items : List Item) (c : Cursor) :
    readAll host (items.map Item.shape) ⟨(writeAll host items c).mem, c.it⟩ =
      (items, writeAll host items c) := by
  rw [writeAll_eq, putAll_eq]
  exact readAll_encode (Memory.block_fill_self _ _ _)

/-- What is written is read back in step; an integer is put down as its two's complement, the most
significant byte first, a string with zeros up to the next multiple of four; and an integer that was
read is written as the bytes it was read from. -/
theorem write_read_inverse (host : Endian) :
    (∀ (items : List Item) (c : Cursor),
      readAll host (items.map Item.shape) ⟨(writeAll host items c).mem, c.it⟩ =
        (items, writeAll host items c)) ∧
    (∀ (isSigned : Bool) (bits : Bits) (v : Integer isSigned bits) (c : Cursor),
      (write v c).it = c.it + bits.size ∧
      ((Nat.ofDigits 256 (((write v c).mem.block c.it bits.size).reverse.map BitVec.toNat) : Nat) :
        Int) = v.val % 2 ^ bits.width) ∧
    (∀ (s : List Byte) (c : Cursor), ∃ n, IsLeast {m | 4 ∣ m ∧ s.length ≤ m} n ∧
      (writeString s c).it = c.it + n ∧
      (writeString s c).mem.block c.it n = s ++ List.replicate (n - s.length) 0) ∧
    (∀ (isSigned : Bool) (bits : Bits) (c d : Cursor),
      (readInteger isSigned bits c).2.it = c.it + bits.size ∧
      (write (readInteger isSigned bits c).1 d).mem.block d.it bits.size =
        c.mem.block c.it bits.size) := by
  refine ⟨readAll_writeAll host, ?_, ?_, ?_⟩
  · intro isSigned bits v c
    have hblock := Memory.block_fill_self c.mem c.it v.encode
    rw [Integer.length_encode] at hblock
    rw [write_eq, putAll_eq, hblock, Integer.length_encode]
    exact ⟨rfl, v.ofDigits_encode⟩
  · intro s c
    have hblock := Memory.block_fill_self c.mem c.it (encodeString s)
    rw [length_encodeString] at hblock
    refine ⟨s.length + padsize s.length, isLeast_padsize _, ?_, ?_⟩
    · rw [writeString_eq, putAll_eq, length_encodeString]
    · rw [writeString_eq, putAll_eq, hblock, Nat.add_sub_cancel_left, encodeString]
  · intro isSigned bits c d
    have hblock := Memory.block_fill_self d.mem d.it (readInteger isSigned bits c).1.encode
    rw [Integer.length_encode] at hblock
    refine ⟨by rw [readInteger_eq], ?_⟩
    rw [write_eq, putAll_eq, hblock, encode_readInteger]

end Nanonet.Xdr
