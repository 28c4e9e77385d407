import Nanonet.Lib.Memory

/-!
# The get area of an input stream buffer

`istreambuf` with the pointers of its base class, over a flat memory, and the functions of
`std::streambuf` that a stream reads with. The reader_writer answers from a script; it keeps what it
was asked for and what it delivered.
-/

namespace Nanonet

/-- What one `read()` does: some bytes, of which it delivers as many as it was asked for, the end of
the file, or an error or a timeout. -/
inductive ReadOutcome (α : Type*)
  | data (first : α) (more : List α)
  | eof
  | error
deriving DecidableEq, Repr

def ReadOutcome.Fails {α : Type*} : ReadOutcome α → Prop
  | data _ _ => False
  | eof | error => True

structure Source (α : Type*) where
  mem : Memory α
  /-- The outcome of the next read, of the one after it, and so on. -/
  script : Nat → ReadOutcome α
  /-- Where each read was to put how many bytes. -/
  requests : List (Nat × Nat)
  received : List α

def Source.read {α : Type*} (m : Source α) (buf n : Nat) : Int × Source α :=
  let m' : Source α :=
    { m with script := fun k => m.script (k + 1), requests := m.requests ++ [(buf, n)] }
  match m.script 0 with
  | .data first more =>
    let bytes := (first :: more).take n
    (bytes.length, { m' with mem := m.mem.fill buf bytes, received := m.received ++ bytes })
  | .eof => (0, m')
  | .error => (-1, m')

/-- The members of an `istreambuf`: the pointers of `std::streambuf`, and the data and the size of
the vector `buffer`. -/
@[ext] structure GetBuffer where
  eback : Nat
  gptr : Nat
  egptr : Nat
  buffer : Nat
  bufferSize : Nat
  sizePb : Nat
deriving DecidableEq, Repr

namespace GetBuffer

variable {α : Type*}

def setg (b : GetBuffer) (eback gptr egptr : Nat) : GetBuffer :=
  { b with eback := eback, gptr := gptr, egptr := egptr }

def gbump (b : GetBuffer) (n : Int) : GetBuffer := { b with gptr := (b.gptr + n).toNat }

/-- `istreambuf( rw , size , size_pb )`, with the vector's data at `buffer`. -/
def construct (buffer size sizePb : Nat) : GetBuffer :=
  let p := buffer + sizePb
  setg ⟨0, 0, 0, buffer, size + sizePb, sizePb⟩ p p p

/-- The size of the putback area after a refill. -/
def n_pb (b : GetBuffer) : Nat := min (b.gptr - b.eback) b.sizePb

def underflow (b : GetBuffer) (m : Source α) : Option α × GetBuffer × Source α :=
  if b.gptr < b.egptr then (some (m.mem b.gptr), b, m) else
  let m := { m with mem := m.mem.move (b.buffer + b.sizePb - b.n_pb) (b.gptr - b.n_pb) b.n_pb }
  let read := m.read (b.buffer + b.sizePb) (b.bufferSize - b.sizePb)
  if read.1 ≤ 0 then (none, b, read.2) else
  let b' := b.setg (b.buffer + b.sizePb - b.n_pb) (b.buffer + b.sizePb)
    (b.buffer + b.sizePb + read.1.toNat)
  (some (read.2.mem b'.gptr), b', read.2)

def uflow (b : GetBuffer) (m : Source α) : Option α × GetBuffer × Source α :=
  let r := b.underflow m
  match r.1 with
  | none => (none, r.2)
  | some _ => (some (r.2.2.mem r.2.1.gptr), r.2.1.gbump 1, r.2.2)

def sgetc (b : GetBuffer) (m : Source α) : Option α × GetBuffer × Source α :=
  if b.gptr < b.egptr then (some (m.mem b.gptr), b, m) else b.underflow m

def sbumpc (b : GetBuffer) (m : Source α) : Option α × GetBuffer × Source α :=
  if b.gptr < b.egptr then (some (m.mem b.gptr), b.gbump 1, m) else b.uflow m

/-- `std::streambuf::sungetc`; `pbackfail` is the one of the base class, which fails. -/
def sungetc (b : GetBuffer) (m : Source α) : Option α × GetBuffer × Source α :=
  if b.eback < b.gptr then (some (m.mem (b.gptr - 1)), b.gbump (-1), m) else (none, b, m)

end GetBuffer

/-- What a stream does with its buffer. -/
inductive GetOp
  | sgetc
  | sbumpc
  | sungetc
deriving DecidableEq, Repr

/-- The buffer, its source, what `sbumpc` returned, and how many characters of the input are before
the read position. -/
structure GetState (α : Type*) where
  b : GetBuffer
  m : Source α
  consumed : List α
  pos : Nat

namespace GetState

variable {α : Type*}

def start (buffer size sizePb : Nat) (mem : Memory α) (script : Nat → ReadOutcome α) : GetState α :=
  ⟨.construct buffer size sizePb, ⟨mem, script, [], []⟩, [], 0⟩

/-- What an operation returns, and what it leaves of the buffer and the source. -/
def call (s : GetState α) : GetOp → Option α × GetBuffer × Source α
  | .sgetc => s.b.sgetc s.m
  | .sbumpc => s.b.sbumpc s.m
  | .sungetc => s.b.sungetc s.m

def exec (s : GetState α) (op : GetOp) : GetState α :=
  let r := s.call op
  match op with
  | .sgetc => ⟨r.2.1, r.2.2, s.consumed, s.pos⟩
  | .sbumpc => ⟨r.2.1, r.2.2, s.consumed ++ r.1.toList, s.pos + r.1.toList.length⟩
  | .sungetc => ⟨r.2.1, r.2.2, s.consumed, s.pos - r.1.toList.length⟩

/-- The characters of the get area that were not read. -/
def unread (s : GetState α) : List α := s.m.mem.block s.b.gptr (s.b.egptr - s.b.gptr)

/-- The characters that can be put back. -/
def history (s : GetState α) : List α := s.m.mem.block s.b.eback (s.b.gptr - s.b.eback)

end GetState

/-! ### The pointers -/

namespace GetBuffer

variable {α : Type*} {b : GetBuffer} {m : Source α} {buffer size sizePb : Nat}

/-- The pointers of a buffer are in order and inside it. -/
structure Placed (buffer size sizePb : Nat) (b : GetBuffer) : Prop where
  buffer_eq : b.buffer = buffer
  sizePb_eq : b.sizePb = sizePb
  bufferSize_eq : b.bufferSize = size + sizePb
  ge : buffer ≤ b.eback
  eback : b.eback ≤ buffer + sizePb
  gptr : b.eback ≤ b.gptr
  egptr : b.gptr ≤ b.egptr
  base : buffer + sizePb ≤ b.egptr
  le : b.egptr ≤ buffer + (size + sizePb)

theorem placed_construct (buffer size sizePb : Nat) :
    (construct buffer size sizePb).Placed buffer size sizePb where
  buffer_eq := rfl
  sizePb_eq := rfl
  bufferSize_eq := rfl
  ge := Nat.le_add_right _ _
  eback := Nat.le_refl _
  gptr := Nat.le_refl _
  egptr := Nat.le_refl _
  base := Nat.le_refl _
  le := by
    simp only [construct, setg]
    omega

theorem n_pb_le (b : GetBuffer) : b.n_pb ≤ b.gptr - b.eback ∧ b.n_pb ≤ b.sizePb :=
  ⟨Nat.min_le_left _ _, Nat.min_le_right _ _⟩

/-- The memory after the history was moved. -/
def moved (b : GetBuffer) (mem : Memory α) : Memory α :=
  mem.move (b.buffer + b.sizePb - b.n_pb) (b.gptr - b.n_pb) b.n_pb

/-- The source after a read that failed. -/
def failed (b : GetBuffer) (m : Source α) : Source α where
  mem := b.moved m.mem
  script k := m.script (k + 1)
  requests := m.requests ++ [(b.buffer + b.sizePb, b.bufferSize - b.sizePb)]
  received := m.received

/-- The source after a read that delivered `bytes`. -/
def filled (b : GetBuffer) (m : Source α) (bytes : List α) : Source α :=
  { b.failed m with
    mem := (b.moved m.mem).fill (b.buffer + b.sizePb) bytes
    received := m.received ++ bytes }

/-- The buffer after a read that delivered `n` bytes. -/
def refilled (b : GetBuffer) (n : Nat) : GetBuffer :=
  b.setg (b.buffer + b.sizePb - b.n_pb) (b.buffer + b.sizePb) (b.buffer + b.sizePb + n)

/-- A failing read leaves the pointers as they are, after the history was moved. -/
theorem underflow_of_fails (h : ¬ b.gptr < b.egptr) (hfails : (m.script 0).Fails) :
    b.underflow m = (none, b, b.failed m) := by
  rw [underflow, if_neg h]
  cases hscript : m.script 0 with
  | data first more =>
    rw [hscript] at hfails
    exact hfails.elim
  | eof => simp [Source.read, hscript, failed, moved]
  | error => simp [Source.read, hscript, failed, moved]

theorem underflow_of_data (h : ¬ b.gptr < b.egptr) (hsize : b.sizePb < b.bufferSize) {first : α}
    {more : List α} (hscript : m.script 0 = .data first more) :
    ∃ rest, first :: rest = (first :: more).take (b.bufferSize - b.sizePb) ∧
      b.underflow m =
        (some first, b.refilled (rest.length + 1), b.filled m (first :: rest)) := by
  obtain ⟨n, hn⟩ : ∃ n, b.bufferSize - b.sizePb = n + 1 :=
    ⟨b.bufferSize - b.sizePb - 1, by omega⟩
  refine ⟨more.take n, by rw [hn, List.take_succ_cons], ?_⟩
  have hfirst : (b.filled m (first :: more.take n)).mem (b.buffer + b.sizePb) = first :=
    Memory.fill_add (b.moved m.mem) (b.buffer + b.sizePb) 0 (first :: more.take n)
  rw [underflow, if_neg h]
  simp only [Source.read, hscript, hn, List.take_succ_cons, List.length_cons, Int.toNat_natCast]
  rw [if_neg (by omega)]
  simp only [Prod.mk.injEq, Option.some.injEq]
  refine ⟨hfirst, rfl, ?_⟩
  simp only [filled, failed, moved, hn]

theorem Placed.refilled (h : b.Placed buffer size sizePb) {n : Nat} (hn : n ≤ size) :
    (b.refilled n).Placed buffer size sizePb := by
  have hle := b.n_pb_le.2
  have hbuffer := h.buffer_eq
  have hpb := h.sizePb_eq
  refine ⟨h.buffer_eq, h.sizePb_eq, h.bufferSize_eq, ?_, ?_, ?_, ?_, ?_, ?_⟩ <;>
    simp only [GetBuffer.refilled, setg] <;> omega

theorem Placed.gbump (h : b.Placed buffer size sizePb) (hlt : b.gptr < b.egptr) :
    (b.gbump 1).Placed buffer size sizePb := by
  obtain ⟨hbuffer, hpb, hsize, hge, heback, hgptr, hegptr, hbase, hle⟩ := h
  refine ⟨hbuffer, hpb, hsize, hge, heback, ?_, ?_, hbase, hle⟩ <;>
    simp only [GetBuffer.gbump] <;> omega

theorem Placed.ungbump (h : b.Placed buffer size sizePb) (hlt : b.eback < b.gptr) :
    (b.gbump (-1)).Placed buffer size sizePb := by
  obtain ⟨hbuffer, hpb, hsize, hge, heback, hgptr, hegptr, hbase, hle⟩ := h
  refine ⟨hbuffer, hpb, hsize, hge, heback, ?_, ?_, hbase, hle⟩ <;>
    simp only [GetBuffer.gbump] <;> omega

/-! ### The memory after a read -/

theorem block_moved (b : GetBuffer) (mem : Memory α) :
    (b.moved mem).block (b.buffer + b.sizePb - b.n_pb) b.n_pb =
      mem.block (b.gptr - b.n_pb) b.n_pb := by
  have hself := Memory.block_fill_self mem (b.buffer + b.sizePb - b.n_pb)
    (mem.block (b.gptr - b.n_pb) b.n_pb)
  rwa [Memory.length_block] at hself

theorem block_filled_history (b : GetBuffer) (m : Source α) (bytes : List α) :
    (b.filled m bytes).mem.block (b.buffer + b.sizePb - b.n_pb) b.n_pb =
      m.mem.block (b.gptr - b.n_pb) b.n_pb := by
  have hle := b.n_pb_le.2
  rw [filled, Memory.block_fill_of_disjoint (.inl (by omega)), block_moved]

theorem block_filled_bytes (b : GetBuffer) (m : Source α) (bytes : List α) :
    (b.filled m bytes).mem.block (b.buffer + b.sizePb) bytes.length = bytes :=
  Memory.block_fill_self _ _ _

theorem moved_of_lt (b : GetBuffer) (mem : Memory α) {a : Nat}
    (h : a < b.buffer + b.sizePb - b.n_pb) : b.moved mem a = mem a := Memory.fill_of_lt h

theorem moved_of_ge (b : GetBuffer) (mem : Memory α) {a : Nat} (h : b.buffer + b.sizePb ≤ a) :
    b.moved mem a = mem a := by
  have hle := b.n_pb_le.2
  exact Memory.fill_of_ge (by rw [Memory.length_block]; omega)

/-- A cell of the putback area takes the character that is as far before the get pointer as the cell
is before the end of the area. -/
theorem moved_apply (b : GetBuffer) (mem : Memory α) {i : Nat} (h : i < b.n_pb) :
    b.moved mem (b.buffer + b.sizePb - b.n_pb + i) = mem (b.gptr - b.n_pb + i) := by
  rw [moved, Memory.move, Memory.fill_add, Memory.getElem?_block, if_pos h, Option.getD_some]

end GetBuffer

end Nanonet
