import Mathlib.Logic.Function.Basic
import Nanonet.Net.Connect

/-!
# Several descriptors

The sockets of a process: which descriptors are open, the status flags of each, and the results of
the system calls to come. What a call does on one descriptor (`onDescriptor`) leaves the others alone.
A descriptor that the kernel gives out is one that was never given out before.
-/

namespace Nanonet

inductive AddressFamily where
  | inet | inet6
  deriving DecidableEq

inductive SocketEvent (A : Type) where
  | socket (family : AddressFamily) (r : SysRet)
  | bind (fd : Nat) (a : A) (r : SysRet)
  | accept (fd : Nat) (r : SysRet)
  | on (fd : Nat) (c : SysCall A) (r : SysRet)
  | close (fd : Nat)

/-- The open descriptors with their status flags, the number of the next one, the results of system
calls to come, and what happened. -/
structure Sockets (A : Type) where
  flags : Nat → BitVec 32
  opened : List Nat
  next : Nat
  script : List SysRet
  trace : List (SocketEvent A)

abbrev SocketsCall (A : Type) := EStateM NetExn (Sockets A)

/-- The flags of a new socket. -/
def O_RDWR : BitVec 32 := 2#32

namespace Sockets

variable {A : Type}

/-- A descriptor as a call on it finds it. -/
def descriptor (s : Sockets A) (fd : Nat) : Descriptor A := ⟨s.flags fd, s.script, []⟩

/-- The sockets after a call on a descriptor. -/
def after (s : Sockets A) (fd : Nat) (d : Descriptor A) : Sockets A :=
  { s with
    flags := Function.update s.flags fd d.flags
    script := d.script
    trace := s.trace ++ d.trace.map fun call => .on fd call.1 call.2 }

/-- A new descriptor, with these flags. -/
def openNext (s : Sockets A) (flags : BitVec 32) : Sockets A :=
  { s with
    flags := Function.update s.flags s.next flags
    opened := s.next :: s.opened
    next := s.next + 1 }

/-- `socketclose( fd )`, which closes the descriptor also where it reports an error. -/
def close (s : Sockets A) (fd : Nat) : Sockets A :=
  { s with opened := s.opened.erase fd, trace := s.trace ++ [.close fd] }

/-- Every descriptor that is open was given out. -/
def GivenOut (s : Sockets A) : Prop := ∀ fd ∈ s.opened, fd < s.next

@[simp] theorem after_opened (s : Sockets A) (fd : Nat) (d : Descriptor A) :
    (s.after fd d).opened = s.opened := rfl

@[simp] theorem after_next (s : Sockets A) (fd : Nat) (d : Descriptor A) :
    (s.after fd d).next = s.next := rfl

@[simp] theorem after_script (s : Sockets A) (fd : Nat) (d : Descriptor A) :
    (s.after fd d).script = d.script := rfl

@[simp] theorem after_flags_self (s : Sockets A) (fd : Nat) (d : Descriptor A) :
    (s.after fd d).flags fd = d.flags := Function.update_self ..

@[simp] theorem after_flags_of_ne (s : Sockets A) {fd fd' : Nat} (h : fd' ≠ fd)
    (d : Descriptor A) : (s.after fd d).flags fd' = s.flags fd' :=
  Function.update_of_ne h _ _

@[simp] theorem openNext_flags_next (s : Sockets A) (flags : BitVec 32) :
    (s.openNext flags).flags s.next = flags := Function.update_self ..

@[simp] theorem after_descriptor (s : Sockets A) (fd : Nat) : s.after fd (s.descriptor fd) = s := by
  simp [after, descriptor]

end Sockets

section calls

variable {A α : Type} {x : NetCall A α} {fd : Nat} {s s' : Sockets A} {a : α} {e : NetExn}

def onDescriptor (fd : Nat) (x : NetCall A α) : SocketsCall A α := fun s =>
  match x (s.descriptor fd) with
  | .ok a d => .ok a (s.after fd d)
  | .error e d => .error e (s.after fd d)

theorem onDescriptor_ok_iff : onDescriptor fd x s = .ok a s' ↔
    ∃ d, x (s.descriptor fd) = .ok a d ∧ s' = s.after fd d := by
  unfold onDescriptor
  cases x (s.descriptor fd) with
  | ok a' d =>
    simp only [EStateM.Result.ok.injEq]
    constructor
    · rintro ⟨rfl, rfl⟩
      exact ⟨d, ⟨rfl, rfl⟩, rfl⟩
    · rintro ⟨d', ⟨rfl, rfl⟩, rfl⟩
      exact ⟨rfl, rfl⟩
  | error e d => simp

theorem onDescriptor_error_iff : onDescriptor fd x s = .error e s' ↔
    ∃ d, x (s.descriptor fd) = .error e d ∧ s' = s.after fd d := by
  unfold onDescriptor
  cases x (s.descriptor fd) with
  | ok a' d => simp
  | error e' d =>
    simp only [EStateM.Result.error.injEq]
    constructor
    · rintro ⟨rfl, rfl⟩
      exact ⟨d, ⟨rfl, rfl⟩, rfl⟩
    · rintro ⟨d', ⟨rfl, rfl⟩, rfl⟩
      exact ⟨rfl, rfl⟩

theorem stateAfter_onDescriptor (fd : Nat) (x : NetCall A α) (s : Sockets A) :
    stateAfter (onDescriptor fd x s) = s.after fd (stateAfter (x (s.descriptor fd))) := by
  unfold onDescriptor
  cases x (s.descriptor fd) <;> rfl

def Ended (result : EStateM.Result NetExn (Sockets A) α) : Prop := ∀ s', result ≠ .error .waiting s'

/-- The call waits only where there are no more results. -/
def WaitsAtEnd (x : SocketsCall A α) : Prop := ∀ s s', x s = .error .waiting s' → s'.script = []

theorem WaitsAtEnd.bind {β : Type} {x : SocketsCall A α} {f : α → SocketsCall A β}
    (hx : WaitsAtEnd x) (hf : ∀ a, WaitsAtEnd (f a)) : WaitsAtEnd (x >>= f) := by
  intro s s' h
  obtain h | ⟨a, s'', -, h⟩ := Call.of_bind_error h
  · exact hx s s' h
  · exact hf a s'' s' h

theorem WaitsAtEnd.pure (a : α) : WaitsAtEnd (pure a : SocketsCall A α) := nofun

theorem WaitsAtEnd.throw {e : NetExn} (he : e ≠ .waiting) :
    WaitsAtEnd (throw e : SocketsCall A α) := by
  intro s s' h
  cases h
  exact absurd rfl he

theorem waitsAtEnd_onDescriptor (hx : ∀ d d', x d = .error .waiting d' → d'.script = []) :
    WaitsAtEnd (onDescriptor fd x) := by
  intro s s' h
  obtain ⟨d, hd, rfl⟩ := onDescriptor_error_iff.1 h
  exact hx _ d hd

end calls

end Nanonet
