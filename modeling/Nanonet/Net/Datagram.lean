import Nanonet.Base.Stream
import Nanonet.Net.Connect

/-!
# Datagrams

`receive_internal` and `send` of a `datagram_socket`, over the results of the system calls they
make. Both try again where a call was interrupted. A send that is refused is taken for one that was
lost; a datagram that is longer than the buffer is cut off.
-/

namespace Nanonet

/-- What `recvfrom()` returns: an error, or a datagram and where it came from. -/
inductive RecvfromRet (A : Type) where
  | fail (errno : Nat)
  | datagram (source : A) (payload : Text)

/-- What `receive_internal` returns, what it assigns to the source if it was given one, and what it
copies to its output iterator. -/
structure Receipt (A : Type) where
  size : Nat
  source : Option A
  bytes : Text
  deriving DecidableEq

def ECONNREFUSED : Nat := 111

namespace DatagramSocket

variable {A : Type} (strerror : Nat → String)

def timeout : Nat := 2 ^ 64 - 1

/-- The default timeout of `receive`, which blocks. -/
def noTimeout : ℚ := -1

def defaultSize : Nat := 65536

/-- `do { err = call() ; } while( EINTR_repeat( err ) ) ;`, which waits where no result is left. -/
def sysRetRepeat (kernel : List SysRet) : Option SysRet := kernel.find? (· ≠ .fail EINTR)

/-- The same for `recvfrom()`. -/
def recvfromRepeat : List (RecvfromRet A) → Option (RecvfromRet A)
  | [] => none
  | .fail errno :: kernel => if errno = EINTR then recvfromRepeat kernel else some (.fail errno)
  | .datagram source payload :: _ => some (.datagram source payload)

/-- The part of `receive_internal` that reads. -/
def receiveNow (max : Nat) (recvs : List (RecvfromRet A)) : Option (Except Exn (Receipt A)) :=
  (recvfromRepeat recvs).map fun
    | .fail errno => .error (.runtimeError ("recvfrom" ++ ": " ++ strerror errno))
    | .datagram source payload =>
      .ok ⟨(payload.take max).length, some source, payload.take max⟩

def receiveInternal (t : ℚ) (max : Nat) (selects : List SysRet) (recvs : List (RecvfromRet A)) :
    Option (Except Exn (Receipt A)) :=
  if 0 ≤ t then
    (sysRetRepeat selects).bind fun
      | .fail errno => some (.error (.runtimeError ("select" ++ ": " ++ strerror errno)))
      | .ok 0 => some (.ok ⟨timeout, none, []⟩)
      | .ok (_ + 1) => receiveNow strerror max recvs
  else receiveNow strerror max recvs

/-- `send( begin , end )` of `n` bytes, and where it differs from `send( begin , end , d )`: whether
the datagram was sent. -/
def send (what : String) (n : Nat) (kernel : List SysRet) : Option (Except Exn Bool) :=
  (sysRetRepeat kernel).map fun
    | .fail errno =>
      if errno = ECONNREFUSED then .ok false
      else .error (.runtimeError (what ++ ": " ++ strerror errno))
    | .ok result =>
      if result = n then .ok true
      else .error (.assertionFailure "result == static_cast< long >( buffer.size() )")

variable {strerror} {t : ℚ} {max : Nat} {selects : List SysRet} {recvs : List (RecvfromRet A)}
  {r : Receipt A}

theorem mem_of_recvfromRepeat {ret : RecvfromRet A} (h : recvfromRepeat recvs = some ret) :
    ret ∈ recvs := by
  induction recvs with
  | nil => cases h
  | cons x recvs ih =>
    cases x with
    | fail errno =>
      rw [recvfromRepeat] at h
      split_ifs at h with heintr
      · exact List.mem_cons_of_mem _ (ih h)
      · obtain rfl := Option.some.inj h
        exact List.mem_cons_self
    | datagram source payload =>
      obtain rfl := Option.some.inj h
      exact List.mem_cons_self

theorem receiveNow_ok (h : receiveNow strerror max recvs = some (.ok r)) :
    ∃ source payload, .datagram source payload ∈ recvs ∧
      r = ⟨(payload.take max).length, some source, payload.take max⟩ := by
  obtain ⟨ret, hret, hr⟩ := Option.map_eq_some_iff.1 h
  cases ret with
  | fail errno => cases hr
  | datagram source payload =>
    cases hr
    exact ⟨source, payload, mem_of_recvfromRepeat hret, rfl⟩

theorem receiveInternal_ok (h : receiveInternal strerror t max selects recvs = some (.ok r)) :
    r = ⟨timeout, none, []⟩ ∨ ∃ source payload, .datagram source payload ∈ recvs ∧
      r = ⟨(payload.take max).length, some source, payload.take max⟩ := by
  rw [receiveInternal] at h
  split_ifs at h
  · obtain ⟨ret, -, hret⟩ := Option.bind_eq_some_iff.1 h
    rcases ret with (_ | n) | errno
    · cases hret
      exact .inl rfl
    · exact .inr (receiveNow_ok hret)
    · cases hret
  · exact .inr (receiveNow_ok h)

theorem receiveInternal_blocking (ht : t < 0)
    (h : receiveInternal strerror t max selects recvs = some (.ok r)) :
    ∃ source payload, .datagram source payload ∈ recvs ∧
      r = ⟨(payload.take max).length, some source, payload.take max⟩ := by
  rw [receiveInternal, if_neg (not_le.2 ht)] at h
  exact receiveNow_ok h

theorem receiveInternal_size (hmax : max < timeout)
    (h : receiveInternal strerror t max selects recvs = some (.ok r)) :
    r.size = timeout ∧ r.source = none ∨
      r.size ≠ timeout ∧ ∃ source payload, .datagram source payload ∈ recvs ∧
        r.source = some source ∧ r.bytes = payload.take max := by
  obtain rfl | ⟨source, payload, hmem, rfl⟩ := receiveInternal_ok h
  · exact .inl ⟨rfl, rfl⟩
  · have hlen : (payload.take max).length ≤ max := List.length_take_le _ _
    exact .inr ⟨by dsimp only; omega, source, payload, hmem, rfl, rfl⟩

end DatagramSocket

end Nanonet
