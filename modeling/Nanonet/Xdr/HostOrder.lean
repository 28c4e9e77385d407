import Nanonet.Xdr.Narrowing
import Nanonet.Xdr.RoundTrip

/-!
# Floating point values and the byte order of the host

The header promises the most significant byte first for every item. The integers keep that promise;
a floating point value is copied in the byte order of the host, so on a little endian host it is big
endian only if its bytes read the same in both directions.
-/

namespace Nanonet.Xdr

open Cursor

/-- A `float` with pattern `b` is written as the unsigned integer `b`, and the `double` that
`read_float` finds in the bytes of that integer is `b` again as a `float`. -/
def FloatAsInteger (host : Endian) (b : BitVec 32) (c : Cursor) : Prop :=
  let written := write (Integer.ofUnsigned false b : Integer false .b32) c
  let read := readFloat host ⟨written.mem, c.it⟩
  writeFloat host b c = written ∧ doubleToFloat read.1 = b ∧ read.2 = written

/-- A `double` with pattern `b` is written as the unsigned integer `b`, and `read_double` finds it in
the bytes of that integer. -/
def DoubleAsInteger (host : Endian) (b : BitVec 64) (c : Cursor) : Prop :=
  let written := write (Integer.ofUnsigned false b : Integer false .b64) c
  writeDouble host b c = written ∧ readDouble host ⟨written.mem, c.it⟩ = (b, written)

/-- The bytes of `b` read the same in both directions. -/
def Symmetric (n : Nat) (b : BitVec (8 * n)) : Prop :=
  (Bytes.bytesOf n b).reverse = Bytes.bytesOf n b

instance (n : Nat) (b : BitVec (8 * n)) : Decidable (Symmetric n b) :=
  inferInstanceAs (Decidable (_ = _))

variable {host : Endian} {n : Nat}

theorem bytes_eq_reverse_iff {b : BitVec (8 * n)} :
    host.bytes n b = (Bytes.bytesOf n b).reverse ↔ host = .big ∨ Symmetric n b := by
  cases host with
  | little => simp [Endian.bytes, Symmetric, eq_comm]
  | big => simp [Endian.bytes]

theorem putAll_inj {c : Cursor} {bs cs : List Byte} (hlen : bs.length = cs.length) :
    c.putAll bs = c.putAll cs ↔ bs = cs := by
  refine ⟨fun h => ?_, fun h => by rw [h]⟩
  rw [putAll_eq, putAll_eq, Cursor.mk.injEq] at h
  rw [← Memory.block_fill_self c.mem c.it bs, h.1, hlen, Memory.block_fill_self]

theorem encode_ofUnsigned (bits : Bits) (b : BitVec bits.width) :
    (Integer.ofUnsigned false b : Integer false bits).encode =
      (Bytes.bytesOf bits.size b).reverse := by
  rw [Integer.encode, Integer.toUnsigned_ofUnsigned]

theorem writeRaw_eq_write_iff (bits : Bits) (b : BitVec bits.width) (c : Cursor) :
    writeRaw host bits.size b c = write (Integer.ofUnsigned false b : Integer false bits) c ↔
      host = .big ∨ Symmetric bits.size b := by
  rw [writeRaw, write_eq, encode_ofUnsigned,
    putAll_inj (by rw [Endian.length_bytes, List.length_reverse, Bytes.length_bytesOf])]
  exact bytes_eq_reverse_iff

theorem readRaw_write (bits : Bits) {b : BitVec bits.width} {c : Cursor}
    (h : host = .big ∨ Symmetric bits.size b) :
    readRaw host bits.size
        ⟨(write (Integer.ofUnsigned false b : Integer false bits) c).mem, c.it⟩ =
      (b, write (Integer.ofUnsigned false b : Integer false bits) c) := by
  rw [← (writeRaw_eq_write_iff bits b c).2 h, writeRaw, putAll_eq, Endian.length_bytes]
  apply readRaw_bytes
  have hblock := Memory.block_fill_self c.mem c.it (host.bytes bits.size b)
  rwa [Endian.length_bytes] at hblock

/-- Floating point values are written and read in the big endian format exactly on big endian hosts
and for patterns whose bytes read the same in both directions. A `float` that is a NaN that signals
is not recovered in either case. -/
theorem float_as_integer_iff (host : Endian) (c : Cursor) :
    (∀ b : BitVec 32,
      FloatAsInteger host b c ↔ (host = .big ∨ Symmetric 4 b) ∧ ¬ Signalling b) ∧
    (∀ b : BitVec 64, DoubleAsInteger host b c ↔ host = .big ∨ Symmetric 8 b) := by
  constructor
  · intro b
    have hread (h : host = .big ∨ Symmetric 4 b) :
        readFloat host ⟨(write (Integer.ofUnsigned false b : Integer false .b32) c).mem, c.it⟩ =
          (floatToDouble b, write (Integer.ofUnsigned false b : Integer false .b32) c) :=
      congrArg (fun r => (floatToDouble r.1, r.2)) (readRaw_write .b32 (c := c) h)
    constructor
    · rintro ⟨hwrite, hback, -⟩
      have horder := (writeRaw_eq_write_iff .b32 b c).1 hwrite
      rw [hread horder, doubleToFloat_floatToDouble_iff] at hback
      exact ⟨horder, hback⟩
    · rintro ⟨horder, hquiet⟩
      refine ⟨(writeRaw_eq_write_iff .b32 b c).2 horder, ?_, ?_⟩
      · rw [hread horder, doubleToFloat_floatToDouble_iff]
        exact hquiet
      · rw [hread horder]
  · intro b
    refine ⟨fun h => (writeRaw_eq_write_iff .b64 b c).1 h.1, fun h => ⟨?_, ?_⟩⟩
    · exact (writeRaw_eq_write_iff .b64 b c).2 h
    · exact readRaw_write .b64 h

/-- On a little endian host `1.0f` is written least significant byte first. -/
theorem not_float_as_integer_one :
    ¬ FloatAsInteger .little 0x3f800000 ⟨fun _ => 0, 0⟩ := by
  rintro ⟨hwrite, -⟩
  have hfirst := congrArg (fun c : Cursor => c.mem 0) hwrite
  revert hfirst
  decide

end Nanonet.Xdr
