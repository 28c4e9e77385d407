import Nanonet.Lib.Memory
import Nanonet.Net.Ostreambuf

/-!
# The put area of an output stream buffer

`ostreambuf` with the pointers of its base class, over a flat memory. The pointers are addresses and
the null pointer is address zero. The assertions of `flush` are off, as in a release build, so a
character may be stored behind the buffer here as it may there. Where the pointers are in order, what
is pending is the block between two of them, and the buffer behaves as the one of
`Nanonet.Net.Ostreambuf` does on that block.
-/

namespace Nanonet

/-- What `ostreambuf` asks of its `RW`. -/
class Writer (σ : Type*) (α : outParam Type*) where
  /-- `write( buf , n )`: the number of bytes written, or a negative number. -/
  write : σ → List α → Int × σ
  /-- `shutdown_write()` -/
  shutdownWrite : σ → σ

instance {α : Type} : Writer (Socket α) α where
  write := Socket.write
  shutdownWrite s := s

/-- The members of an `ostreambuf`: the pointers of `std::streambuf`, whether `rw` is set, and the
data and the size of the vector `buffer`. -/
@[ext] structure PutBuffer where
  pbase : Nat
  pptr : Nat
  epptr : Nat
  rw : Bool
  buffer : Nat
  size : Nat
deriving DecidableEq, Repr

/-- What the objects share: the memory and the reader_writer. -/
structure Heap (σ α : Type*) where
  mem : Memory α
  rw : σ

namespace PutBuffer

def setp (b : PutBuffer) (p e : Nat) : PutBuffer := { b with pbase := p, pptr := p, epptr := e }

def pbump (b : PutBuffer) (n : Int) : PutBuffer := { b with pptr := (b.pptr + n).toNat }

/-- `ostreambuf( rw , size )`, with the vector's data at `buffer`. -/
def construct (rw : Bool) (buffer size : Nat) : PutBuffer :=
  setp ⟨0, 0, 0, rw, buffer, size⟩ buffer (buffer + size - 1)

/-- `ostreambuf( ostreambuf&& other )`: the new object and what is left of `other`. -/
def moveConstruct (other : PutBuffer) : PutBuffer × PutBuffer :=
  (other, setp { other with rw := false, buffer := 0, size := 0 } 0 0)

variable {σ α : Type*} [Writer σ α]

def flush (b : PutBuffer) (m : Heap σ α) : Bool × PutBuffer × Heap σ α :=
  if !b.rw then (true, b, m) else
  let n : Int := b.pptr - b.pbase
  if n = 0 then (true, b, m) else
  let written := Writer.write m.rw (m.mem.block b.pbase n.toNat)
  if written.1 < 0 then (false, b, { m with rw := written.2 })
  else (true, b.pbump (-n), { m with rw := written.2 })

/-- `*pptr() = c; pbump( 1 );` -/
def append (b : PutBuffer) (c : α) (m : Heap σ α) : PutBuffer × Heap σ α :=
  (b.pbump 1, { m with mem := m.mem.store b.pptr c })

/-- `overflow( c )`, where `none` is `traits_type::eof()`. -/
def overflow (b : PutBuffer) (c : Option α) (m : Heap σ α) :
    Option α × PutBuffer × Heap σ α :=
  let stored :=
    match c with
    | some c => b.append c m
    | none => (b, m)
  let r := flush stored.1 stored.2
  (if r.1 then c else none, r.2)

def sync (b : PutBuffer) (m : Heap σ α) : Int × PutBuffer × Heap σ α :=
  let r := flush b m
  (if r.1 then 0 else -1, r.2)

def sputc (b : PutBuffer) (c : α) (m : Heap σ α) : Option α × PutBuffer × Heap σ α :=
  if b.pptr < b.epptr then (some c, b.append c m) else b.overflow (some c) m

def destruct (b : PutBuffer) (m : Heap σ α) : Heap σ α :=
  if b.rw ∧ b.pbase ≠ 0 then
    let m := (b.sync m).2.2
    { m with rw := Writer.shutdownWrite m.rw }
  else m

/-! ### What is pending -/

/-- The characters between `pbase()` and `pptr()`. -/
def pending (b : PutBuffer) (m : Heap σ α) : List α := m.mem.block b.pbase (b.pptr - b.pbase)

/-- The pointers are in order: the put area is the buffer less one character, and the put pointer is
not before it. -/
structure Ordered (b : PutBuffer) : Prop where
  base : b.pbase = b.buffer
  le : b.pbase ≤ b.pptr
  epptr : b.epptr = b.buffer + b.size - 1
  size : 1 ≤ b.size

variable {b b' : PutBuffer} {m m' : Heap σ α} {c : α}

theorem ordered_construct (rw : Bool) (buffer : Nat) {size : Nat} (hsize : 1 ≤ size) :
    (construct rw buffer size).Ordered := ⟨rfl, Nat.le_refl _, rfl, hsize⟩

omit [Writer σ α] in
theorem Ordered.append (h : b.Ordered) (c : α) (m : Heap σ α) : (b.append c m).1.Ordered := by
  obtain ⟨hbase, hle, hepptr, hsize⟩ := h
  refine ⟨hbase, ?_, hepptr, hsize⟩
  simp only [PutBuffer.append, pbump]
  omega

omit [Writer σ α] in
theorem pptr_append (b : PutBuffer) (c : α) (m : Heap σ α) :
    (b.append c m).1.pptr = b.pptr + 1 := by
  simp only [PutBuffer.append, pbump]
  omega

omit [Writer σ α] in
theorem pending_append (hle : b.pbase ≤ b.pptr) (c : α) (m : Heap σ α) :
    (b.append c m).1.pending (b.append c m).2 = b.pending m ++ [c] := by
  have hlen : b.pptr + 1 - b.pbase = (b.pptr - b.pbase) + 1 := by omega
  have hend : b.pbase + (b.pptr - b.pbase) = b.pptr := by omega
  have hold : (m.mem.store b.pptr c).block b.pbase (b.pptr - b.pbase) =
      m.mem.block b.pbase (b.pptr - b.pbase) :=
    Memory.block_fill_of_disjoint (.inl (by omega))
  rw [pending, pptr_append]
  simp only [PutBuffer.append, pbump]
  rw [hlen, Memory.block_add, hend, hold, pending]
  congr 1
  exact Memory.block_fill_self m.mem b.pptr [c]

omit [Writer σ α] in
theorem length_pending (b : PutBuffer) (m : Heap σ α) :
    (b.pending m).length = b.pptr - b.pbase := Memory.length_block _ _ _

/-! ### `flush` -/

theorem flush_of_detached (h : b.rw = false) : b.flush m = (true, b, m) := by
  simp [flush, h]

theorem flush_of_empty (h : b.pptr = b.pbase) : b.flush m = (true, b, m) := by
  simp [flush, h]

/-- What is pending is written in one block; it stays pending if that fails. -/
theorem flush_of_pending (hrw : b.rw = true) (hlt : b.pbase < b.pptr) :
    b.flush m =
      if (Writer.write m.rw (b.pending m)).1 < 0 then
        (false, b, { m with rw := (Writer.write m.rw (b.pending m)).2 })
      else
        (true, { b with pptr := b.pbase }, { m with rw := (Writer.write m.rw (b.pending m)).2 }) := by
  have hne : (b.pptr : Int) - b.pbase ≠ 0 := by omega
  have hlen : ((b.pptr : Int) - b.pbase).toNat = b.pptr - b.pbase := by omega
  have hback : ((b.pptr : Int) + -((b.pptr : Int) - b.pbase)).toNat = b.pbase := by omega
  simp only [flush, hrw, Bool.not_true, Bool.false_eq_true, if_false, hne, hlen, pbump, hback]
  rfl

/-- `flush` leaves the buffer as it is but for the put pointer, which stays or goes back to the
beginning. -/
theorem flush_frame (h : b.pbase ≤ b.pptr) (m : Heap σ α) :
    ∃ p, (b.flush m).2.1 = { b with pptr := p } ∧ (p = b.pptr ∨ p = b.pbase) := by
  by_cases hrw : b.rw = true
  · rcases Nat.eq_or_lt_of_le h with heq | hlt
    · rw [flush_of_empty heq.symm]
      exact ⟨b.pptr, rfl, .inl rfl⟩
    · rw [flush_of_pending hrw hlt]
      split
      · exact ⟨b.pptr, rfl, .inl rfl⟩
      · exact ⟨b.pbase, rfl, .inr rfl⟩
  · rw [flush_of_detached (by simpa using hrw)]
    exact ⟨b.pptr, rfl, .inl rfl⟩

/-- `sputc` moves the put pointer on by one character or back to the beginning. -/
theorem sputc_frame (h : b.pbase ≤ b.pptr) (c : α) (m : Heap σ α) :
    ∃ p, (b.sputc c m).2.1 = { b with pptr := p } ∧ (p = b.pptr + 1 ∨ p = b.pbase) := by
  have hnext : (b.append c m).1 = { b with pptr := b.pptr + 1 } := rfl
  rw [sputc]
  split
  · exact ⟨b.pptr + 1, hnext, .inl rfl⟩
  · have hle : (b.append c m).1.pbase ≤ (b.append c m).1.pptr := by
      rw [hnext]
      exact Nat.le_succ_of_le h
    obtain ⟨p, hp, hcases⟩ := flush_frame hle (b.append c m).2
    exact ⟨p, hp, hcases⟩

theorem Ordered.withPptr (h : b.Ordered) {p : Nat} (hp : b.pbase ≤ p) :
    { b with pptr := p }.Ordered := ⟨h.base, hp, h.epptr, h.size⟩

theorem Ordered.flush (h : b.Ordered) (m : Heap σ α) : (b.flush m).2.1.Ordered := by
  obtain ⟨p, hp, hcases⟩ := flush_frame h.le m
  have hle := h.le
  rw [hp]
  exact h.withPptr (by omega)

theorem Ordered.sputc (h : b.Ordered) (c : α) (m : Heap σ α) : (b.sputc c m).2.1.Ordered := by
  obtain ⟨p, hp, hcases⟩ := sputc_frame h.le c m
  have hle := h.le
  rw [hp]
  exact h.withPptr (by omega)

/-! ### The buffer of a socket, as a list -/

section View

variable {α : Type} {b : PutBuffer} {m : Heap (Socket α) α}

/-- The buffer with what is pending in place of the pointers. -/
def view (b : PutBuffer) (m : Heap (Socket α) α) : Ostreambuf α := ⟨b.size, b.pending m, m.rw⟩

theorem flush_view (m : Heap (Socket α) α) (hrw : b.rw = true) (h : b.Ordered) :
    (b.flush m).1 = (b.view m).flush.1 ∧
      (b.flush m).2.1.view (b.flush m).2.2 = (b.view m).flush.2 := by
  have hlen := length_pending b m
  rcases Nat.eq_or_lt_of_le h.le with heq | hlt
  · have hzero : (b.pending m).length = 0 := by omega
    have hview : (b.view m).flush = (true, b.view m) := by
      simp only [Ostreambuf.flush, view, hzero, if_true]
    rw [flush_of_empty heq.symm, hview]
    exact ⟨rfl, rfl⟩
  · have hne : (b.pending m).length ≠ 0 := by omega
    rcases hwrite : m.rw.write (b.pending m) with ⟨written, rw'⟩
    have hwrite' : Writer.write m.rw (b.pending m) = (written, rw') := hwrite
    rw [flush_of_pending hrw hlt]
    simp only [Ostreambuf.flush, view, hne, hwrite, hwrite', if_false]
    by_cases hneg : written < 0
    · simp only [if_pos hneg, true_and]
      rfl
    · simp [if_neg hneg, pending]

/-- `sputc` on the pointers is `sputc` on the list. -/
theorem sputc_view (hrw : b.rw = true) (h : b.Ordered) (c : α) :
    (b.sputc c m).1.isSome = ((b.view m).sputc c).1 ∧
      (b.sputc c m).2.1.view (b.sputc c m).2.2 = ((b.view m).sputc c).2 := by
  have hlen := length_pending b m
  have hview : (b.append c m).1.view (b.append c m).2 =
      { b.view m with pending := (b.view m).pending ++ [c] } := by
    rw [view, pending_append h.le]
    rfl
  have hroom : b.pptr < b.epptr ↔ (b.view m).pending.length < (b.view m).size - 1 := by
    have hle := h.le
    have hsize := h.size
    simp only [view, hlen, h.epptr, ← h.base]
    omega
  rw [sputc, Ostreambuf.sputc]
  by_cases hlt : b.pptr < b.epptr
  · rw [if_pos hlt, if_pos (hroom.1 hlt)]
    exact ⟨rfl, hview⟩
  · rw [if_neg hlt, if_neg (mt hroom.2 hlt), Ostreambuf.overflow, ← hview]
    obtain ⟨hok, hstate⟩ := flush_view (b := (b.append c m).1) (b.append c m).2 hrw (h.append c m)
    refine ⟨?_, hstate⟩
    rw [← hok, overflow]
    cases ((b.append c m).1.flush (b.append c m).2).1 <;> rfl

/-- `sync` on the pointers is `sync` on the list. -/
theorem sync_view (hrw : b.rw = true) (h : b.Ordered) :
    ((b.sync m).1 = 0 ↔ (b.view m).sync.1 = true) ∧
      (b.sync m).2.1.view (b.sync m).2.2 = (b.view m).sync.2 := by
  obtain ⟨hok, hstate⟩ := flush_view m hrw h
  refine ⟨?_, hstate⟩
  rw [sync, Ostreambuf.sync, ← hok]
  cases (b.flush m).1 <;> simp

end View

end PutBuffer

end Nanonet
