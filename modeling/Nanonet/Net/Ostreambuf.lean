import Mathlib.Data.List.Basic

/-!
# The output stream of a connection

`socket::write`, `ostreambuf` and the operations of a `std::ostream` over it. The kernel is a list
of results, one for each call of `send()`; a list that is used up is a connection that is gone. What
the kernel accepts is appended to `accepted`, and `sends` keeps what each `write` was offered and
what was taken of it.
-/

namespace Nanonet

/-- What one call of `send()` does: interrupted, failed, or a number of bytes accepted. -/
inductive SendResult where
  | eintr
  | error
  | sent (count : Nat)
  deriving DecidableEq, Repr

/-- A `send()` that was not interrupted: the bytes offered, and how many were taken. -/
structure Send where
  offered : Nat
  taken : Nat
  deriving DecidableEq, Repr

def Send.Full (x : Send) : Prop := x.taken = x.offered

/-- Some of the bytes were taken, but not all. -/
def Send.Partial (x : Send) : Prop := 0 < x.taken ∧ x.taken < x.offered

/-- A stream socket, from the side that writes. -/
structure Socket (α : Type) where
  kernel : List SendResult
  accepted : List α := []
  sends : List Send := []
  deriving DecidableEq, Repr

/-- `do { ret = socketsend( .. ) ; } while( EINTR_repeat( ret ) )` of `n` bytes. -/
def sendRepeat (n : Nat) : List SendResult → Int × List SendResult
  | [] => (-1, [])
  | .eintr :: kernel => sendRepeat n kernel
  | .error :: kernel => (-1, kernel)
  | .sent count :: kernel => (min count n, kernel)

namespace Socket

variable {α : Type}

def write (s : Socket α) (buf : List α) : Int × Socket α :=
  let (ret, kernel) := sendRepeat buf.length s.kernel
  let s : Socket α :=
    ⟨kernel, s.accepted ++ buf.take ret.toNat, s.sends ++ [⟨buf.length, ret.toNat⟩]⟩
  if ret < 0 ∨ (buf.length : Int) ≠ ret then (-1, s) else (ret, s)

end Socket

/-- `ostreambuf`: the put area holds `pending`, and its end leaves one byte of the buffer for
`overflow`. -/
structure Ostreambuf (α : Type) where
  size : Nat
  pending : List α := []
  rw : Socket α
  deriving DecidableEq, Repr

namespace Ostreambuf

variable {α : Type}

def flush (b : Ostreambuf α) : Bool × Ostreambuf α :=
  if b.pending.length = 0 then (true, b)
  else
    match b.rw.write b.pending with
    | (written, rw) =>
      if written < 0 then (false, { b with rw := rw })
      else (true, { b with pending := [], rw := rw })

def sync (b : Ostreambuf α) : Bool × Ostreambuf α := b.flush

/-- `overflow( c )` of a character that is not `eof`. -/
def overflow (b : Ostreambuf α) (c : α) : Bool × Ostreambuf α :=
  flush { b with pending := b.pending ++ [c] }

def sputc (b : Ostreambuf α) (c : α) : Bool × Ostreambuf α :=
  if b.pending.length < b.size - 1 then (true, { b with pending := b.pending ++ [c] })
  else b.overflow c

/-- `std::streambuf::xsputn`: how many characters were put. -/
def xsputn (b : Ostreambuf α) : List α → Nat × Ostreambuf α
  | [] => (0, b)
  | c :: cs =>
    match b.sputc c with
    | (false, b) => (0, b)
    | (true, b) => ((b.xsputn cs).1 + 1, (b.xsputn cs).2)

/-- `~ostreambuf()`: what `sync` returns is dropped. -/
def destruct (b : Ostreambuf α) : Ostreambuf α := b.sync.2

end Ostreambuf

/-- What a program does with the stream before it is destroyed. -/
inductive StreamOp (α : Type) where
  | write (cs : List α)
  | flush
  deriving DecidableEq, Repr

/-- `onstream`: the buffer, and the `badbit` that reports a failure to the program. -/
structure Onstream (α : Type) where
  buffer : Ostreambuf α
  badbit : Bool := false
  deriving DecidableEq, Repr

namespace Onstream

variable {α : Type}

/-- A stream on a fresh connection. -/
def open_ (size : Nat) (kernel : List SendResult) : Onstream α :=
  ⟨⟨size, [], ⟨kernel, [], []⟩⟩, false⟩

/-- `std::ostream::write` and `std::ostream::flush`: the sentry stops both on a bad stream. -/
def exec (s : Onstream α) : StreamOp α → Onstream α
  | .write cs =>
    if s.badbit then s
    else ⟨(s.buffer.xsputn cs).2, decide ((s.buffer.xsputn cs).1 ≠ cs.length)⟩
  | .flush => if s.badbit then s else ⟨s.buffer.sync.2, !s.buffer.sync.1⟩

def run (s : Onstream α) (ops : List (StreamOp α)) : Onstream α := ops.foldl exec s

def written (ops : List (StreamOp α)) : List α :=
  ops.flatMap fun
    | .write cs => cs
    | .flush => []

end Onstream

end Nanonet
