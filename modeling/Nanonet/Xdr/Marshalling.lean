import Mathlib.Data.Int.Basic
import Nanonet.Lib.Bytes
import Nanonet.Lib.Memory

/-!
# XDR marshalling

The functions of `xdr.h`. Each takes an iterator into a memory of bytes by reference and leaves it
behind the item: a writer returns the cursor it leaves, a reader the value and the cursor. Integers
go through shifts and masks, floating point values through the bytes that the host stores them as,
strings byte by byte with padding to the next multiple of four.
-/

namespace Nanonet.Xdr

/-! ### The iterator -/

/-- An iterator and the memory it points into. -/
structure Cursor where
  mem : Memory Byte
  it : Nat

namespace Cursor

/-- `*it`, as an rvalue. -/
def get (c : Cursor) : Byte := c.mem c.it

/-- `++it` -/
def next (c : Cursor) : Cursor := { c with it := c.it + 1 }

/-- `*it = b; ++it;` -/
def put (c : Cursor) (b : Byte) : Cursor := ⟨c.mem.store c.it b, c.it + 1⟩

/-- `for (auto b : bs) { *it = b; ++it; }` -/
def putAll (c : Cursor) (bs : List Byte) : Cursor := bs.foldl put c

def take : Nat → Cursor → List Byte × Cursor
  | 0, c => ([], c)
  | n + 1, c =>
    let rest := take n c.next
    (c.get :: rest.1, rest.2)

end Cursor

/-! ### Integers -/

/-- The widths for which `integer<is_signed, bits>` is specialised. -/
inductive Bits
  | b16
  | b32
  | b64
deriving DecidableEq, Repr

def Bits.size : Bits → Nat
  | b16 => 2
  | b32 => 4
  | b64 => 8

abbrev Bits.width (bits : Bits) : Nat := 8 * bits.size

/-- The range of `integer<is_signed, bits>::type`. -/
def InRange (isSigned : Bool) (bits : Bits) (z : Int) : Prop :=
  if isSigned then -2 ^ (bits.width - 1) ≤ z ∧ z < 2 ^ (bits.width - 1)
  else 0 ≤ z ∧ z < 2 ^ bits.width

/-- A value of `integer<is_signed, bits>::type`. -/
@[ext] structure Integer (isSigned : Bool) (bits : Bits) where
  val : Int
  in_range : InRange isSigned bits val

namespace Integer

variable {isSigned : Bool} {bits : Bits}

def toUnsigned (v : Integer isSigned bits) : BitVec bits.width := BitVec.ofInt _ v.val

theorem inRange_toInt (us : BitVec bits.width) : InRange true bits us.toInt :=
  ⟨BitVec.le_toInt us, BitVec.toInt_lt⟩

theorem inRange_toNat (us : BitVec bits.width) : InRange false bits us.toNat := by
  refine ⟨Int.natCast_nonneg _, ?_⟩
  exact_mod_cast us.isLt

/-- `static_cast<typename integer<is_signed, bits>::type>(us)` -/
def ofUnsigned : (isSigned : Bool) → BitVec bits.width → Integer isSigned bits
  | true, us => ⟨us.toInt, inRange_toInt us⟩
  | false, us => ⟨us.toNat, inRange_toNat us⟩

end Integer

variable {isSigned : Bool} {bits : Bits} {w : Nat}

/-- `for (int i = size - 1; i >= 0; --i)` of `write`, with `size` rounds to go. The sixteen bit
variant is promoted to `int` before the shift, which changes no bit below the sixteenth. -/
def writeLoop (v_us : BitVec w) : Nat → Cursor → Cursor
  | 0, c => c
  | i + 1, c => writeLoop v_us i (c.put (((v_us >>> (8 * i)) &&& 0xff).setWidth 8))

def write (v : Integer isSigned bits) (c : Cursor) : Cursor := writeLoop v.toUnsigned bits.size c

/-- `for (int i = size - 1; i >= 0; --i)` of `read_integer`, with `size` rounds to go. -/
def readLoop : Nat → BitVec w → Cursor → BitVec w × Cursor
  | 0, us, c => (us, c)
  | i + 1, us, c => readLoop i (us ||| (c.get.setWidth w <<< (8 * i))) c.next

def readInteger (isSigned : Bool) (bits : Bits) (c : Cursor) : Integer isSigned bits × Cursor :=
  let r := readLoop bits.size (0 : BitVec bits.width) c
  (Integer.ofUnsigned isSigned r.1, r.2)

/-! ### Floating point -/

inductive Endian
  | little
  | big
deriving DecidableEq, Repr

/-- The bytes of an object of `n` bytes, in the order of their addresses. -/
def Endian.bytes (host : Endian) (n : Nat) (v : BitVec w) : List Byte :=
  match host with
  | little => Bytes.bytesOf n v
  | big => (Bytes.bytesOf n v).reverse

/-- The object with the given bytes. -/
def Endian.object (host : Endian) (bs : List Byte) : BitVec w :=
  match host with
  | little => Bytes.ofBytes bs
  | big => Bytes.ofBytes bs.reverse

/-- `write_raw(it, v)`, with `sizeof(T)` equal to `n`. -/
def writeRaw (host : Endian) (n : Nat) (v : BitVec (8 * n)) (c : Cursor) : Cursor :=
  c.putAll (host.bytes n v)

/-- `read_raw<T>(it)`, with `sizeof(T)` equal to `n`. -/
def readRaw (host : Endian) (n : Nat) (c : Cursor) : BitVec (8 * n) × Cursor :=
  let buf := c.take n
  (host.object buf.1, buf.2)

/-- `write(it, v)` of a `float` with pattern `v`. -/
def writeFloat (host : Endian) (v : BitVec 32) (c : Cursor) : Cursor := writeRaw host 4 v c

/-- `write(it, v)` of a `double` with pattern `v`. -/
def writeDouble (host : Endian) (v : BitVec 64) (c : Cursor) : Cursor := writeRaw host 8 v c

/-- The sign, the exponent and the fraction of a `double`. -/
def doubleOf (sign : Bool) (exponent fraction : Nat) : BitVec 64 :=
  (BitVec.ofBool sign ++ BitVec.ofNat 11 exponent) ++ BitVec.ofNat 52 fraction

/-- The conversion from `float` to `double`, on patterns. A subnormal `float` is a normal `double`,
and a signalling NaN comes out quiet. -/
def floatToDouble (b : BitVec 32) : BitVec 64 :=
  let sign := b.getLsbD 31
  let exponent := b.toNat / 2 ^ 23 % 2 ^ 8
  let fraction := b.toNat % 2 ^ 23
  if exponent = 255 then
    doubleOf sign 2047 (if fraction = 0 then 0 else fraction * 2 ^ 29 ||| 2 ^ 51)
  else if exponent = 0 then
    if fraction = 0 then doubleOf sign 0 0
    else
      let top := Nat.log2 fraction
      doubleOf sign (top + 874) ((fraction - 2 ^ top) * 2 ^ (52 - top))
  else doubleOf sign (exponent + 896) (fraction * 2 ^ 29)

/-- `read_float(it)`, which returns a `double`. -/
def readFloat (host : Endian) (c : Cursor) : BitVec 64 × Cursor :=
  let r := readRaw host 4 c
  (floatToDouble r.1, r.2)

def readDouble (host : Endian) (c : Cursor) : BitVec 64 × Cursor := readRaw host 8 c

/-! ### Strings -/

def padsize (n : Nat) : Nat := if n % 4 = 0 then 0 else 4 - n % 4

def pad : Nat → Cursor → Cursor
  | 0, c => c
  | n + 1, c => pad n (c.put 0)

def skip : Nat → Cursor → Cursor
  | 0, c => c
  | n + 1, c => skip n c.next

def writeString (s : List Byte) (c : Cursor) : Cursor := pad (padsize s.length) (c.putAll s)

def readString (size : Nat) (c : Cursor) : List Byte × Cursor :=
  let ret := c.take size
  (ret.1, skip (padsize size) ret.2)

/-! ### Sequences of items -/

/-- A value that one of the `write` functions takes. -/
inductive Item
  | integer (isSigned : Bool) (bits : Bits) (v : Integer isSigned bits)
  | float (v : BitVec 32)
  | double (v : BitVec 64)
  | string (s : List Byte)

/-- What a caller has to know to read an item back. -/
inductive Shape
  | integer (isSigned : Bool) (bits : Bits)
  | float
  | double
  | string (size : Nat)

def Item.shape : Item → Shape
  | integer isSigned bits _ => .integer isSigned bits
  | float _ => .float
  | double _ => .double
  | string s => .string s.length

def Item.write (host : Endian) : Item → Cursor → Cursor
  | integer _ _ v, c => Xdr.write v c
  | float v, c => writeFloat host v c
  | double v, c => writeDouble host v c
  | string s, c => writeString s c

/-- The read call that matches a shape: `read_integer`, `read_raw<float>`, `read_raw<double>` or
`read_string`. -/
def Shape.read (host : Endian) : Shape → Cursor → Item × Cursor
  | integer isSigned bits, c =>
    let r := readInteger isSigned bits c
    (.integer isSigned bits r.1, r.2)
  | float, c =>
    let r := readRaw host 4 c
    (.float r.1, r.2)
  | double, c =>
    let r := readRaw host 8 c
    (.double r.1, r.2)
  | string size, c =>
    let r := readString size c
    (.string r.1, r.2)

/-- The items are written one after the other. -/
def writeAll (host : Endian) (items : List Item) (c : Cursor) : Cursor :=
  items.foldl (fun c i => i.write host c) c

/-- Items of the given shapes are read one after the other. -/
def readAll (host : Endian) : List Shape → Cursor → List Item × Cursor
  | [], c => ([], c)
  | s :: ss, c =>
    let first := s.read host c
    let rest := readAll host ss first.2
    (first.1 :: rest.1, rest.2)

end Nanonet.Xdr
