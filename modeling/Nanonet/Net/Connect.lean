import Nanonet.Math.RoundToInteger

/-!
# `connect` with a timeout

`my_connect` of `detail/network.cpp`, with `poll_one`, `bool_fcntl_option` and `get_sockopt_error`,
over the results of the system calls: each call takes the next one, and a call for which there is
none has not returned. After a connection in progress the descriptor is switched to blocking mode,
after an immediate one it stays non-blocking, whatever its mode was before (`connects_iff`).
-/

namespace Nanonet

/-- How a call on a descriptor ends where it does not return: it throws, it waits for a system call,
or what it does is not specified. -/
inductive NetExn where
  | runtimeError (what : String)
  | timeoutException (what : String)
  | waiting
  | unspecified
  deriving DecidableEq

/-- The system calls on a descriptor; `A` are the addresses. -/
inductive SysCall (A : Type) where
  | fcntlGet
  | fcntlSet (flags : BitVec 32)
  | connect (a : A)
  | poll (timeoutMs : Int)
  | getSoError

/-- What a system call returns: -1 with `errno`, or a number. `fcntl( fd , F_GETFL )` returns the
flags of the descriptor, and `getsockopt` the pending error. -/
inductive SysRet where
  | ok (value : Nat)
  | fail (errno : Nat)
  deriving DecidableEq

/-- A descriptor: its status flags, the results to come, and the calls made. -/
structure Descriptor (A : Type) where
  flags : BitVec 32
  script : List SysRet
  trace : List (SysCall A × SysRet)

abbrev NetCall (A : Type) := EStateM NetExn (Descriptor A)

def EINTR : Nat := 4
def EINPROGRESS : Nat := 115
def O_NONBLOCK : BitVec 32 := 1#32 <<< 11

section calls

variable {A : Type}

def sysCall (c : SysCall A) : NetCall A SysRet := fun fd =>
  match fd.script with
  | [] => .error .waiting fd
  | r :: script => .ok r { fd with script := script, trace := fd.trace ++ [(c, r)] }

/-- `do { ret = call() ; } while( EINTR_repeat( ret ) ) ;` -/
def repeatEintr (c : SysCall A) (flags : BitVec 32) :
    List SysRet → List (SysCall A × SysRet) → EStateM.Result NetExn (Descriptor A) SysRet
  | [], trace => .error .waiting ⟨flags, [], trace⟩
  | r :: script, trace =>
    if r = .fail EINTR then repeatEintr c flags script (trace ++ [(c, r)])
    else .ok r ⟨flags, script, trace ++ [(c, r)]⟩

def sysCallRepeat (c : SysCall A) : NetCall A SysRet := fun fd =>
  repeatEintr c fd.flags fd.script fd.trace

variable (strerror : Nat → String)

def throwSocketError {α : Type} (msg : String) (errno : Nat) : NetCall A α :=
  throw (.runtimeError (msg ++ ": " ++ strerror errno))

def boolFcntlOption (option : BitVec 32) (error_msg : String) (enable : Bool) : NetCall A Unit := do
  match ← sysCall .fcntlGet with
  | .fail errno => throwSocketError strerror (error_msg ++ ": reading options") errno
  | .ok _ => do
    let previous_flags := (← get).flags
    let arg := if enable then previous_flags ||| option else previous_flags &&& ~~~option
    match ← sysCall (.fcntlSet arg) with
    | .fail errno => throwSocketError strerror (error_msg ++ ": setting options") errno
    | .ok _ => modify fun fd => { fd with flags := arg }

def getSockoptError : NetCall A Nat := do
  match ← sysCall .getSoError with
  | .fail errno => throwSocketError strerror "getsockopt() for error" errno
  | .ok ret => pure ret

/-- The number of milliseconds `timeout_ms` in `poll_one`. -/
def timeoutMs (timeout : Double) : Except NetExn Int :=
  match roundToInteger .int32 (timeout * .ofInt 1000) with
  | .returned ms => .ok ms
  | .thrown (.runtimeError what) => .error (.runtimeError what)
  | _ => .error .unspecified

/-- The loop of `poll_one` and what follows it. -/
def pollFor (timeout_ms : Int) (msg : String) : NetCall A Nat := do
  match ← sysCallRepeat (.poll timeout_ms) with
  | .fail errno => throwSocketError strerror (msg ++ ": " ++ "poll() failed") errno
  | .ok res => pure res

def pollOne (timeout : Double) (msg : String) : NetCall A Nat :=
  match timeoutMs timeout with
  | .error e => throw e
  | .ok timeout_ms => pollFor strerror timeout_ms msg

def myConnectBlocking (a : A) : NetCall A Unit := do
  match ← sysCallRepeat (.connect a) with
  | .fail errno => throwSocketError strerror "connect" errno
  | .ok _ => pure ()

/-- What `throw_timeout_exception( t , op )` throws. -/
def timeoutOf (t : Double) (op : String) : NetExn :=
  .timeoutException ("Operation \"" ++ op ++ "\" timed out after " ++ t.fixedText ++ " second(s)")

/-- `my_connect` from the poll on, once the connection is in progress. -/
def awaitConnection (timeout : Double) : NetCall A Unit := do
  let poll_res ← pollOne strerror timeout "connecting"
  if poll_res = 0 then throw (timeoutOf timeout "connecting")
  else do
    let err ← getSockoptError strerror
    if err ≠ 0 then throwSocketError strerror "connect() after poll()" err
    else boolFcntlOption strerror O_NONBLOCK "Enabling nonblocking mode" false

def myConnect (a : A) (timeout : Double) : NetCall A Unit := do
  if timeout < .ofInt 0 then myConnectBlocking strerror a
  else do
    boolFcntlOption strerror O_NONBLOCK "Enabling nonblocking mode" true
    match ← sysCallRepeat (.connect a) with
    | .ok _ => pure ()
    | .fail errno =>
      if errno ≠ EINPROGRESS then throwSocketError strerror "connect" errno
      else awaitConnection strerror timeout

end calls

/-! ### One system call -/

section spec

variable {A : Type} {strerror : Nat → String} {c : SysCall A} {fd fd' : Descriptor A} {e : NetExn}

def Descriptor.TimedOut (fd : Descriptor A) : Prop := ∃ ms, (.poll ms, .ok 0) ∈ fd.trace

/-- The call fails: it throws something other than a timeout, or a system call has not returned. -/
def Descriptor.FailsWith (fd : Descriptor A) (e : NetExn) : Prop :=
  e = .waiting ∧ fd.script = [] ∨ ∃ what, e = .runtimeError what

def interrupted (n : Nat) (r : SysRet) (rest : List SysRet) : List SysRet :=
  List.replicate n (.fail EINTR) ++ r :: rest

theorem Descriptor.FailsWith.not_timeout {what : String} :
    ¬ fd.FailsWith (.timeoutException what) := by
  rintro (⟨hwaiting, -⟩ | ⟨what', hwhat⟩)
  · cases hwaiting
  · cases hwhat

theorem repeatEintr_ok {flags : BitVec 32} {script : List SysRet}
    {trace : List (SysCall A × SysRet)} {r : SysRet}
    (h : repeatEintr c flags script trace = .ok r fd') : ∃ n rest, script = interrupted n r rest ∧
      r ≠ .fail EINTR ∧
      fd' = ⟨flags, rest, trace ++ (List.replicate n (c, .fail EINTR) ++ [(c, r)])⟩ := by
  induction script generalizing trace with
  | nil => cases h
  | cons r' script ih =>
    rw [repeatEintr] at h
    split_ifs at h with hr
    · obtain ⟨n, rest, rfl, hne, rfl⟩ := ih h
      refine ⟨n + 1, rest, ?_, hne, ?_⟩
      · rw [hr]
        rfl
      · simp [hr, List.replicate_succ]
    · cases h
      exact ⟨0, script, rfl, hr, rfl⟩

theorem repeatEintr_interrupted (flags : BitVec 32) {r : SysRet} (hr : r ≠ .fail EINTR) (n : Nat)
    (rest : List SysRet) (trace : List (SysCall A × SysRet)) :
    repeatEintr c flags (interrupted n r rest) trace =
      .ok r ⟨flags, rest, trace ++ (List.replicate n (c, .fail EINTR) ++ [(c, r)])⟩ := by
  induction n generalizing trace with
  | zero => simp [interrupted, repeatEintr, hr]
  | succ n ih =>
    have hcons : interrupted (n + 1) r rest = .fail EINTR :: interrupted n r rest := rfl
    rw [hcons, repeatEintr, if_pos rfl, ih]
    simp [List.replicate_succ]

theorem repeatEintr_error {flags : BitVec 32} {script : List SysRet}
    {trace : List (SysCall A × SysRet)}
    (h : repeatEintr c flags script trace = .error e fd') :
    e = .waiting ∧ fd'.script = [] ∧
      ∃ n, fd'.trace = trace ++ List.replicate n (c, .fail EINTR) := by
  induction script generalizing trace with
  | nil =>
    cases h
    exact ⟨rfl, rfl, 0, by simp⟩
  | cons r script ih =>
    rw [repeatEintr] at h
    split_ifs at h with hr
    · obtain ⟨rfl, hscript, n, hn⟩ := ih h
      refine ⟨rfl, hscript, n + 1, ?_⟩
      rw [hn, hr]
      simp [List.replicate_succ]

/-- The flags after a change of the option. -/
def withOption (option : BitVec 32) (enable : Bool) (flags : BitVec 32) : BitVec 32 :=
  if enable then flags ||| option else flags &&& ~~~option

theorem boolFcntlOption_eq (option : BitVec 32) (msg : String) (enable : Bool) (flags : BitVec 32)
    (script : List SysRet) (trace : List (SysCall A × SysRet)) :
    boolFcntlOption strerror option msg enable ⟨flags, script, trace⟩ =
      let arg := withOption option enable flags
      match script with
      | [] => .error .waiting ⟨flags, [], trace⟩
      | .fail errno :: rest =>
        .error (.runtimeError (msg ++ ": reading options" ++ ": " ++ strerror errno))
          ⟨flags, rest, trace ++ [(.fcntlGet, .fail errno)]⟩
      | [.ok v] => .error .waiting ⟨flags, [], trace ++ [(.fcntlGet, .ok v)]⟩
      | .ok v :: .fail errno :: rest =>
        .error (.runtimeError (msg ++ ": setting options" ++ ": " ++ strerror errno))
          ⟨flags, rest, trace ++ [(.fcntlGet, .ok v)] ++ [(.fcntlSet arg, .fail errno)]⟩
      | .ok v₁ :: .ok v₂ :: rest =>
        .ok () ⟨arg, rest, trace ++ [(.fcntlGet, .ok v₁)] ++ [(.fcntlSet arg, .ok v₂)]⟩ := by
  obtain _ | ⟨_ | _, _ | ⟨_ | _, _⟩⟩ := script <;> rfl

theorem boolFcntlOption_ok_iff {option : BitVec 32} {msg : String} {enable : Bool} :
    boolFcntlOption strerror option msg enable fd = .ok () fd' ↔
      ∃ v₁ v₂ rest, fd.script = .ok v₁ :: .ok v₂ :: rest ∧
        fd' = ⟨withOption option enable fd.flags, rest, fd.trace ++ [(.fcntlGet, .ok v₁)] ++
          [(.fcntlSet (withOption option enable fd.flags), .ok v₂)]⟩ := by
  obtain ⟨flags, script, trace⟩ := fd
  rw [boolFcntlOption_eq]
  constructor
  · intro h
    dsimp only at h
    split at h <;> cases h
    exact ⟨_, _, _, rfl, rfl⟩
  · rintro ⟨v₁, v₂, rest, hscript, rfl⟩
    dsimp only at hscript
    subst hscript
    rfl

theorem boolFcntlOption_error {option : BitVec 32} {msg : String} {enable : Bool}
    (h : boolFcntlOption strerror option msg enable fd = .error e fd') :
    fd'.FailsWith e ∧ (fd'.TimedOut ↔ fd.TimedOut) := by
  obtain ⟨flags, script, trace⟩ := fd
  rw [boolFcntlOption_eq] at h
  dsimp only at h
  split at h <;> cases h <;> simp [Descriptor.FailsWith, Descriptor.TimedOut]

theorem boolFcntlOption_waiting {option : BitVec 32} {msg : String} {enable : Bool}
    (h : boolFcntlOption strerror option msg enable fd = .error .waiting fd') :
    fd'.script = [] := by
  obtain ⟨⟨-, hscript⟩ | ⟨what, hwhat⟩, -⟩ := boolFcntlOption_error h
  · exact hscript
  · cases hwhat

theorem boolFcntlOption_error_flags {option : BitVec 32} {msg : String} {enable : Bool}
    (h : boolFcntlOption strerror option msg enable fd = .error e fd') : fd'.flags = fd.flags := by
  obtain ⟨flags, script, trace⟩ := fd
  rw [boolFcntlOption_eq] at h
  dsimp only at h
  split at h <;> cases h <;> rfl

theorem getSockoptError_eq (flags : BitVec 32) (script : List SysRet)
    (trace : List (SysCall A × SysRet)) : getSockoptError strerror ⟨flags, script, trace⟩ =
      match script with
      | [] => .error .waiting ⟨flags, [], trace⟩
      | .fail errno :: rest =>
        .error (.runtimeError ("getsockopt() for error" ++ ": " ++ strerror errno))
          ⟨flags, rest, trace ++ [(.getSoError, .fail errno)]⟩
      | .ok ret :: rest => .ok ret ⟨flags, rest, trace ++ [(.getSoError, .ok ret)]⟩ := by
  obtain _ | ⟨_ | _, _⟩ := script <;> rfl

theorem getSockoptError_ok_iff {ret : Nat} : getSockoptError strerror fd = .ok ret fd' ↔
    ∃ rest, fd.script = .ok ret :: rest ∧
      fd' = ⟨fd.flags, rest, fd.trace ++ [(.getSoError, .ok ret)]⟩ := by
  obtain ⟨flags, script, trace⟩ := fd
  rw [getSockoptError_eq]
  constructor
  · intro h
    split at h <;> cases h
    exact ⟨_, rfl, rfl⟩
  · rintro ⟨rest, hscript, rfl⟩
    dsimp only at hscript
    subst hscript
    rfl

theorem getSockoptError_error (h : getSockoptError strerror fd = .error e fd') :
    fd'.FailsWith e ∧ (fd'.TimedOut ↔ fd.TimedOut) := by
  obtain ⟨flags, script, trace⟩ := fd
  rw [getSockoptError_eq] at h
  split at h <;> cases h <;> simp [Descriptor.FailsWith, Descriptor.TimedOut]

theorem sysCallRepeat_ok_iff {r : SysRet} (hr : r ≠ .fail EINTR) :
    sysCallRepeat c fd = .ok r fd' ↔ ∃ n rest, fd.script = interrupted n r rest ∧
      fd' = ⟨fd.flags, rest, fd.trace ++ (List.replicate n (c, .fail EINTR) ++ [(c, r)])⟩ := by
  constructor
  · intro h
    obtain ⟨n, rest, hscript, -, hfd⟩ := repeatEintr_ok h
    exact ⟨n, rest, hscript, hfd⟩
  · rintro ⟨n, rest, hscript, rfl⟩
    rw [sysCallRepeat, hscript]
    exact repeatEintr_interrupted fd.flags hr n rest fd.trace

theorem pollOne_ok_iff {timeout : Double} {msg : String} {res : Nat} :
    pollOne strerror timeout msg fd = .ok res fd' ↔
      ∃ ms n rest, timeoutMs timeout = .ok ms ∧ fd.script = interrupted n (.ok res) rest ∧
        fd' = ⟨fd.flags, rest, fd.trace ++
          (List.replicate n (.poll ms, .fail EINTR) ++ [(.poll ms, .ok res)])⟩ := by
  unfold pollOne
  constructor
  · intro h
    cases hms : timeoutMs timeout with
    | error e =>
      rw [hms] at h
      cases h
    | ok ms =>
      rw [hms] at h
      obtain ⟨r, fd₁, hrepeat, hrest⟩ := Call.of_bind_ok h
      cases r with
      | fail errno => cases hrest
      | ok v =>
        cases hrest
        obtain ⟨n, rest, hscript, rfl⟩ := (sysCallRepeat_ok_iff (r := .ok res) nofun).1 hrepeat
        exact ⟨ms, n, rest, rfl, hscript, rfl⟩
  · rintro ⟨ms, n, rest, hms, hscript, rfl⟩
    rw [hms]
    exact Call.bind_ok ((sysCallRepeat_ok_iff (r := .ok res) nofun).2 ⟨n, rest, hscript, rfl⟩)

theorem timedOut_append_iff {n : Nat} (rs : List SysRet) {fd' : Descriptor A}
    (hrs : ∀ r ∈ rs, ∀ ms, (c, r) ≠ (.poll ms, .ok 0))
    (htrace : fd'.trace =
      fd.trace ++ (List.replicate n (c, .fail EINTR) ++ rs.map fun r => (c, r))) :
    fd'.TimedOut ↔ fd.TimedOut := by
  unfold Descriptor.TimedOut
  rw [htrace]
  refine exists_congr fun ms => ?_
  have hrest : (.poll ms, .ok 0) ∉ rs.map fun r => (c, r) := fun hmem => by
    obtain ⟨r, hr, heq⟩ := List.mem_map.1 hmem
    exact hrs r hr ms heq
  simp [List.mem_replicate, hrest]

theorem repeatEintr_flags (flags : BitVec 32) (script : List SysRet)
    (trace : List (SysCall A × SysRet)) :
    (stateAfter (repeatEintr c flags script trace)).flags = flags := by
  induction script generalizing trace with
  | nil => rfl
  | cons r script ih =>
    rw [repeatEintr]
    split_ifs
    · exact ih _
    · rfl

theorem pollOne_flags (timeout : Double) (msg : String) (fd : Descriptor A) :
    (stateAfter (pollOne strerror timeout msg fd)).flags = fd.flags := by
  unfold pollOne
  cases timeoutMs timeout with
  | error e => rfl
  | ok ms =>
    refine Call.stateAfter_bind (R := fun a b : Descriptor A => b.flags = a.flags)
      (fun h h' => h'.trans h)
      (repeatEintr_flags fd.flags fd.script fd.trace) fun r fd' _ => ?_
    cases r <;> rfl

theorem timeoutMs_error {timeout : Double} (h : timeoutMs timeout = .error e) :
    e = .unspecified ∧ (timeout * .ofInt 1000).value = none ∨ ∃ what, e = .runtimeError what := by
  unfold timeoutMs at h
  have hexact := roundToInteger_exact_iff .int32 (timeout * .ofInt 1000)
  obtain hlarge | ⟨n, hreturned⟩ | hundefined := roundToInteger_cases .int32 (timeout * .ofInt 1000)
  · rw [hlarge] at h
    cases h
    exact .inr ⟨_, rfl⟩
  · rw [hreturned] at h
    cases h
  · rw [hundefined] at h hexact
    cases h
    refine .inl ⟨rfl, ?_⟩
    by_contra hvalue
    exact (hexact.2 ⟨hvalue, nofun⟩).specified rfl

theorem timeoutMs_error_of_le {timeout : Double} (htimeout : .ofInt 0 ≤ timeout)
    (h : timeoutMs timeout = .error e) : ∃ what, e = .runtimeError what := by
  have hvalue : timeout.value ≠ none := by
    obtain ⟨-, -, b, hb, -⟩ := htimeout
    simp [Option.mem_def.1 hb]
  have hproduct : (timeout * .ofInt 1000).value ≠ none :=
    Double.value_mul_ne_none hvalue (by decide +kernel) (by decide +kernel) (by decide +kernel)
  exact (timeoutMs_error h).resolve_left fun hnone => hproduct hnone.2

theorem pollOne_waiting {timeout : Double} {msg : String}
    (h : pollOne strerror timeout msg fd = .error .waiting fd') : fd'.script = [] := by
  unfold pollOne at h
  cases hms : timeoutMs timeout with
  | error e =>
    rw [hms] at h
    cases h
    obtain ⟨he, -⟩ | ⟨what, he⟩ := timeoutMs_error hms
    · cases he
    · cases he
  | ok ms =>
    rw [hms] at h
    obtain hrepeat | ⟨r, fd₁, -, hrest⟩ := Call.of_bind_error h
    · exact (repeatEintr_error hrepeat).2.1
    · cases r <;> cases hrest

theorem pollOne_error {timeout : Double} {msg : String} (htimeout : .ofInt 0 ≤ timeout)
    (h : pollOne strerror timeout msg fd = .error e fd') :
    fd'.FailsWith e ∧ (fd'.TimedOut ↔ fd.TimedOut) := by
  unfold pollOne at h
  cases hms : timeoutMs timeout with
  | error e' =>
    rw [hms] at h
    cases h
    exact ⟨.inr (timeoutMs_error_of_le htimeout hms), Iff.rfl⟩
  | ok ms =>
    rw [hms] at h
    obtain hrepeat | ⟨r, fd₁, hrepeat, hrest⟩ := Call.of_bind_error h
    · obtain ⟨rfl, hscript, n, htrace⟩ := repeatEintr_error hrepeat
      exact ⟨.inl ⟨rfl, hscript⟩, timedOut_append_iff [] (by simp) (by simpa using htrace)⟩
    · obtain ⟨n, rest, -, -, rfl⟩ := repeatEintr_ok hrepeat
      cases r with
      | ok v => cases hrest
      | fail errno =>
        cases hrest
        exact ⟨.inr ⟨_, rfl⟩, timedOut_append_iff [.fail errno] (by simp) rfl⟩

end spec

/-! ### Connecting -/

section connect

variable {A : Type} {strerror : Nat → String} {a : A} {timeout : Double} {fd fd' : Descriptor A}
  {e : NetExn}

/-- The mode is switched and `connect` succeeds. -/
def AtOnce (script : List SysRet) : Prop :=
  ∃ v₁ v₂ n v rest, script = .ok v₁ :: .ok v₂ :: interrupted n (.ok v) rest

/-- The mode is switched, the connection is in progress, the descriptor gets ready without a pending
error, and the mode is switched again. -/
def AfterPoll (timeout : Double) (script : List SysRet) : Prop :=
  ∃ ms v₁ v₂ n m k v₃ v₄ rest, timeoutMs timeout = .ok ms ∧
    script = .ok v₁ :: .ok v₂ :: interrupted n (.fail EINPROGRESS)
      (interrupted m (.ok (k + 1)) (.ok 0 :: .ok v₃ :: .ok v₄ :: rest))

/-- A call of `connect` has succeeded, or the descriptor has no pending error after it. -/
def Descriptor.Established (fd : Descriptor A) (a : A) : Prop :=
  (∃ v, (.connect a, .ok v) ∈ fd.trace) ∨ (.getSoError, .ok 0) ∈ fd.trace

theorem awaitConnection_ok (h : awaitConnection strerror timeout fd = .ok () fd') :
    (∃ ms m k v₃ v₄ rest, timeoutMs timeout = .ok ms ∧
      fd.script = interrupted m (.ok (k + 1)) (.ok 0 :: .ok v₃ :: .ok v₄ :: rest)) ∧
    fd'.flags = withOption O_NONBLOCK false fd.flags ∧ (.getSoError, .ok 0) ∈ fd'.trace ∧
    (fd'.TimedOut ↔ fd.TimedOut) := by
  obtain ⟨res, fd₁, hpoll, h⟩ := Call.of_bind_ok h
  obtain ⟨ms, m, rest, hms, hscript, rfl⟩ := pollOne_ok_iff.1 hpoll
  obtain _ | k := res
  · cases h
  rw [if_neg (Nat.succ_ne_zero k)] at h
  obtain ⟨err, fd₂, herr, h⟩ := Call.of_bind_ok h
  obtain ⟨rest', hrest, rfl⟩ := getSockoptError_ok_iff.1 herr
  obtain _ | err := err
  · obtain ⟨v₃, v₄, rest'', hrest', rfl⟩ := boolFcntlOption_ok_iff.1 h
    dsimp only at hrest hrest'
    subst hrest hrest'
    refine ⟨⟨ms, m, k, v₃, v₄, rest'', hms, hscript⟩, rfl, by simp, ?_⟩
    simp [Descriptor.TimedOut, List.mem_replicate]
  · cases h

theorem awaitConnection_returns (strerror : Nat → String) {ms : Int}
    (hms : timeoutMs timeout = .ok ms) {m k v₃ v₄ : Nat} {rest : List SysRet}
    (hscript : fd.script = interrupted m (.ok (k + 1)) (.ok 0 :: .ok v₃ :: .ok v₄ :: rest)) :
    ∃ trace, awaitConnection strerror timeout fd =
      .ok () ⟨withOption O_NONBLOCK false fd.flags, rest, trace⟩ := by
  apply Exists.intro
  unfold awaitConnection
  rw [Call.bind_ok (pollOne_ok_iff.2 ⟨ms, m, _, hms, hscript, rfl⟩),
    if_neg (Nat.succ_ne_zero k), Call.bind_ok (getSockoptError_ok_iff.2 ⟨_, rfl, rfl⟩)]
  exact boolFcntlOption_ok_iff.2 ⟨v₃, v₄, rest, rfl, rfl⟩

theorem myConnect_ok (htimeout : .ofInt 0 ≤ timeout) {flags : BitVec 32} {script : List SysRet}
    (h : myConnect strerror a timeout ⟨flags, script, []⟩ = .ok () fd') :
    fd'.Established a ∧ ¬fd'.TimedOut ∧
      (AtOnce script ∧ fd'.flags = withOption O_NONBLOCK true flags ∨
        AfterPoll timeout script ∧
          fd'.flags = withOption O_NONBLOCK false (withOption O_NONBLOCK true flags)) := by
  unfold myConnect at h
  rw [if_neg (Double.not_lt_of_le htimeout)] at h
  obtain ⟨u, fd₁, hfcntl, h⟩ := Call.of_bind_ok h
  obtain ⟨v₁, v₂, rest, hscript, rfl⟩ := boolFcntlOption_ok_iff.1 hfcntl
  obtain ⟨r, fd₂, hconnect, h⟩ := Call.of_bind_ok h
  obtain ⟨n, rest', hrest, hr, rfl⟩ := repeatEintr_ok hconnect
  dsimp only at hscript hrest
  subst hscript hrest
  cases r with
  | ok v =>
    cases h
    refine ⟨.inl ⟨v, by simp⟩, ?_, .inl ⟨⟨v₁, v₂, n, v, rest', rfl⟩, rfl⟩⟩
    simp [Descriptor.TimedOut, List.mem_replicate]
  | fail errno =>
    dsimp only at h
    by_cases herrno : errno = EINPROGRESS
    · subst herrno
      obtain ⟨⟨ms, m, k, v₃, v₄, rest'', hms, hscript⟩, hflags, hmem, htimedOut⟩ :=
        awaitConnection_ok h
      dsimp only at hscript
      subst hscript
      refine ⟨.inr hmem, ?_, .inr ⟨⟨ms, v₁, v₂, n, m, k, v₃, v₄, rest'', hms, rfl⟩, hflags⟩⟩
      rw [htimedOut]
      simp [Descriptor.TimedOut, List.mem_replicate]
    · rw [if_pos herrno] at h
      cases h

theorem myConnect_connecting (strerror : Nat → String) (a : A) (htimeout : .ofInt 0 ≤ timeout)
    (flags : BitVec 32) (v₁ v₂ n : Nat) {r : SysRet} (hr : r ≠ .fail EINTR) (rest : List SysRet) :
    ∃ trace, myConnect strerror a timeout ⟨flags, .ok v₁ :: .ok v₂ :: interrupted n r rest, []⟩ =
      (match r with
        | .ok _ => pure ()
        | .fail errno =>
          if errno ≠ EINPROGRESS then throwSocketError strerror "connect" errno
          else awaitConnection strerror timeout : NetCall A Unit)
        ⟨withOption O_NONBLOCK true flags, rest, trace⟩ := by
  apply Exists.intro
  unfold myConnect
  rw [if_neg (Double.not_lt_of_le htimeout),
    Call.bind_ok (boolFcntlOption_ok_iff.2 ⟨v₁, v₂, _, rfl, rfl⟩)]
  exact Call.bind_ok ((sysCallRepeat_ok_iff hr).2 ⟨n, rest, rfl, rfl⟩)

theorem myConnect_atOnce (strerror : Nat → String) (a : A) (htimeout : .ofInt 0 ≤ timeout)
    (flags : BitVec 32) {script : List SysRet} (hscript : AtOnce script) :
    ∃ fd', myConnect strerror a timeout ⟨flags, script, []⟩ = .ok () fd' ∧
      fd'.flags = withOption O_NONBLOCK true flags := by
  obtain ⟨v₁, v₂, n, v, rest, rfl⟩ := hscript
  obtain ⟨trace, heq⟩ := myConnect_connecting strerror a htimeout flags v₁ v₂ n (r := .ok v)
    nofun rest
  exact ⟨_, heq, rfl⟩

theorem myConnect_afterPoll (strerror : Nat → String) (a : A) (htimeout : .ofInt 0 ≤ timeout)
    (flags : BitVec 32) {script : List SysRet} (hscript : AfterPoll timeout script) :
    ∃ fd', myConnect strerror a timeout ⟨flags, script, []⟩ = .ok () fd' ∧
      fd'.flags = withOption O_NONBLOCK false (withOption O_NONBLOCK true flags) := by
  obtain ⟨ms, v₁, v₂, n, m, k, v₃, v₄, rest, hms, rfl⟩ := hscript
  obtain ⟨trace, heq⟩ := myConnect_connecting strerror a htimeout flags v₁ v₂ n
    (r := .fail EINPROGRESS) (by decide)
    (interrupted m (.ok (k + 1)) (.ok 0 :: .ok v₃ :: .ok v₄ :: rest))
  obtain ⟨trace', hawait⟩ := awaitConnection_returns strerror hms
    (show Descriptor.script ⟨withOption O_NONBLOCK true flags, _, trace⟩ = _ from rfl)
  exact ⟨_, heq.trans hawait, rfl⟩

theorem awaitConnection_error (htimeout : .ofInt 0 ≤ timeout)
    (h : awaitConnection strerror timeout fd = .error e fd') :
    fd'.FailsWith e ∧ (fd'.TimedOut ↔ fd.TimedOut) ∨
      e = timeoutOf timeout "connecting" ∧ fd'.TimedOut := by
  obtain hpoll | ⟨res, fd₁, hpoll, h⟩ := Call.of_bind_error h
  · exact .inl (pollOne_error htimeout hpoll)
  obtain ⟨ms, m, rest, hms, hscript, rfl⟩ := pollOne_ok_iff.1 hpoll
  obtain _ | k := res
  · cases h
    exact .inr ⟨rfl, ms, by simp⟩
  rw [if_neg (Nat.succ_ne_zero k)] at h
  obtain herr | ⟨err, fd₂, herr, h⟩ := Call.of_bind_error h
  · obtain ⟨hfails, hkept⟩ := getSockoptError_error herr
    refine .inl ⟨hfails, hkept.trans ?_⟩
    simp [Descriptor.TimedOut, List.mem_replicate]
  obtain ⟨rest', hrest, rfl⟩ := getSockoptError_ok_iff.1 herr
  split_ifs at h with hzero
  · cases h
    refine .inl ⟨.inr ⟨_, rfl⟩, ?_⟩
    simp [Descriptor.TimedOut, List.mem_replicate]
  · obtain ⟨hfails, hkept⟩ := boolFcntlOption_error h
    refine .inl ⟨hfails, hkept.trans ?_⟩
    simp [Descriptor.TimedOut, List.mem_replicate]

theorem myConnect_error (htimeout : .ofInt 0 ≤ timeout) {flags : BitVec 32} {script : List SysRet}
    (h : myConnect strerror a timeout ⟨flags, script, []⟩ = .error e fd') :
    fd'.FailsWith e ∧ ¬fd'.TimedOut ∨ e = timeoutOf timeout "connecting" ∧ fd'.TimedOut := by
  unfold myConnect at h
  rw [if_neg (Double.not_lt_of_le htimeout)] at h
  obtain hfcntl | ⟨u, fd₁, hfcntl, h⟩ := Call.of_bind_error h
  · obtain ⟨hfails, hkept⟩ := boolFcntlOption_error hfcntl
    refine .inl ⟨hfails, ?_⟩
    rw [hkept]
    simp [Descriptor.TimedOut]
  obtain ⟨v₁, v₂, rest, hscript, rfl⟩ := boolFcntlOption_ok_iff.1 hfcntl
  obtain hconnect | ⟨r, fd₂, hconnect, h⟩ := Call.of_bind_error h
  · obtain ⟨rfl, hscript', n, htrace⟩ := repeatEintr_error hconnect
    refine .inl ⟨.inl ⟨rfl, hscript'⟩, ?_⟩
    simp [Descriptor.TimedOut, htrace, List.mem_replicate]
  obtain ⟨n, rest', hrest, hr, rfl⟩ := repeatEintr_ok hconnect
  cases r with
  | ok v => cases h
  | fail errno =>
    dsimp only at h
    split_ifs at h with herrno
    · cases h
      refine .inl ⟨.inr ⟨_, rfl⟩, ?_⟩
      simp [Descriptor.TimedOut, List.mem_replicate]
    · obtain ⟨hfails, hkept⟩ | htimedOut := awaitConnection_error htimeout h
      · refine .inl ⟨hfails, ?_⟩
        rw [hkept]
        simp [Descriptor.TimedOut, List.mem_replicate]
      · exact .inr htimedOut

theorem awaitConnection_timeout_iff (htimeout : .ofInt 0 ≤ timeout) {rest : List SysRet} :
    (∃ what fd', awaitConnection strerror timeout fd = .error (.timeoutException what) fd' ∧
      fd'.script = rest) ↔
    ∃ ms m, timeoutMs timeout = .ok ms ∧ fd.script = interrupted m (.ok 0) rest := by
  constructor
  · rintro ⟨what, fd', h, rfl⟩
    obtain hpoll | ⟨res, fd₁, hpoll, h⟩ := Call.of_bind_error h
    · exact absurd (pollOne_error htimeout hpoll).1 Descriptor.FailsWith.not_timeout
    obtain ⟨ms, m, rest, hms, hscript, rfl⟩ := pollOne_ok_iff.1 hpoll
    obtain _ | k := res
    · cases h
      exact ⟨ms, m, hms, hscript⟩
    rw [if_neg (Nat.succ_ne_zero k)] at h
    obtain herr | ⟨err, fd₂, -, h⟩ := Call.of_bind_error h
    · exact absurd (getSockoptError_error herr).1 Descriptor.FailsWith.not_timeout
    split_ifs at h
    · cases h
    · exact absurd (boolFcntlOption_error h).1 Descriptor.FailsWith.not_timeout
  · rintro ⟨ms, m, hms, hscript⟩
    exact ⟨_, _, Call.bind_ok (pollOne_ok_iff.2 ⟨ms, m, rest, hms, hscript, rfl⟩), rfl⟩

theorem myConnect_timeout_iff (strerror : Nat → String) (a : A) (htimeout : .ofInt 0 ≤ timeout)
    (flags : BitVec 32) {script rest : List SysRet} (trace : List (SysCall A × SysRet)) :
    (∃ what fd', myConnect strerror a timeout ⟨flags, script, trace⟩ =
      .error (.timeoutException what) fd' ∧ fd'.script = rest) ↔
    ∃ ms v₁ v₂ n m, timeoutMs timeout = .ok ms ∧ script = .ok v₁ :: .ok v₂ ::
      interrupted n (.fail EINPROGRESS) (interrupted m (.ok 0) rest) := by
  unfold myConnect
  rw [if_neg (Double.not_lt_of_le htimeout)]
  constructor
  · rintro ⟨what, fd', h, hrest⟩
    obtain hfcntl | ⟨u, fd₁, hfcntl, h⟩ := Call.of_bind_error h
    · exact absurd (boolFcntlOption_error hfcntl).1 Descriptor.FailsWith.not_timeout
    obtain ⟨v₁, v₂, rest₁, hscript, rfl⟩ := boolFcntlOption_ok_iff.1 hfcntl
    obtain hconnect | ⟨r, fd₂, hconnect, h⟩ := Call.of_bind_error h
    · cases (repeatEintr_error hconnect).1
    obtain ⟨n, rest₂, hscript', hr, rfl⟩ := repeatEintr_ok hconnect
    dsimp only at hscript hscript'
    subst hscript hscript'
    cases r with
    | ok v => cases h
    | fail errno =>
      dsimp only at h
      split_ifs at h with herrno
      · cases h
      · obtain rfl := not_not.1 herrno
        obtain ⟨ms, m, hms, hscript⟩ := (awaitConnection_timeout_iff htimeout).1 ⟨what, fd', h, hrest⟩
        dsimp only at hscript
        subst hscript
        exact ⟨ms, v₁, v₂, n, m, hms, rfl⟩
  · rintro ⟨ms, v₁, v₂, n, m, hms, rfl⟩
    rw [Call.bind_ok (boolFcntlOption_ok_iff.2 ⟨v₁, v₂, _, rfl, rfl⟩), Call.bind_ok
      ((sysCallRepeat_ok_iff (r := .fail EINPROGRESS) (by decide)).2 ⟨n, _, rfl, rfl⟩)]
    exact (awaitConnection_timeout_iff htimeout).2 ⟨ms, m, hms, rfl⟩

/-! ### The mode of the descriptor -/

theorem withOption_true_and (option flags : BitVec 32) :
    withOption option true flags &&& option = option := by
  ext i hi
  simp only [withOption, if_true, BitVec.getElem_and, BitVec.getElem_or]
  cases option[i] <;> simp

theorem withOption_false_and (option flags : BitVec 32) :
    withOption option false flags &&& option = 0#32 := by
  ext i hi
  simp only [withOption, Bool.false_eq_true, if_false, BitVec.getElem_and, BitVec.getElem_not]
  cases option[i] <;> simp

/-- What a call of `my_connect` with a timeout is to do, on a descriptor with these flags. -/
structure ConnectExact (a : A) (flags : BitVec 32)
    (result : EStateM.Result NetExn (Descriptor A) Unit) : Prop where
  returns : ∀ fd', result = .ok () fd' → fd'.Established a ∧ ¬fd'.TimedOut ∧
    fd'.flags &&& O_NONBLOCK = flags &&& O_NONBLOCK
  throws : ∀ e fd', result = .error e fd' → fd'.FailsWith e ∨ ∃ what, e = .timeoutException what
  timeout_iff : ∀ e fd', result = .error e fd' →
    ((∃ what, e = .timeoutException what) ↔ fd'.TimedOut)

/-- With a timeout that is not negative the call does what it is to do, exactly where the mode of
the descriptor was the one it leaves: non-blocking where `connect` succeeds at once, blocking where
the connection is made after the `poll`. -/
theorem connects_iff (strerror : Nat → String) (a : A) (timeout : Double)
    (htimeout : .ofInt 0 ≤ timeout) (flags : BitVec 32) (script : List SysRet) :
    ConnectExact a flags (myConnect strerror a timeout ⟨flags, script, []⟩) ↔
      (AtOnce script → flags &&& O_NONBLOCK = O_NONBLOCK) ∧
        (AfterPoll timeout script → flags &&& O_NONBLOCK = 0#32) := by
  constructor
  · intro hexact
    constructor
    · intro hscript
      obtain ⟨fd', heq, hflags⟩ := myConnect_atOnce strerror a htimeout flags hscript
      rw [← (hexact.returns fd' heq).2.2, hflags, withOption_true_and]
    · intro hscript
      obtain ⟨fd', heq, hflags⟩ := myConnect_afterPoll strerror a htimeout flags hscript
      rw [← (hexact.returns fd' heq).2.2, hflags, withOption_false_and]
  · rintro ⟨hatOnce, hafterPoll⟩
    constructor
    · intro fd' heq
      obtain ⟨hestablished, htimedOut, ⟨hscript, hflags⟩ | ⟨hscript, hflags⟩⟩ :=
        myConnect_ok htimeout heq
      · refine ⟨hestablished, htimedOut, ?_⟩
        rw [hflags, withOption_true_and, hatOnce hscript]
      · refine ⟨hestablished, htimedOut, ?_⟩
        rw [hflags, withOption_false_and, hafterPoll hscript]
    · intro e fd' heq
      obtain ⟨hfails, -⟩ | ⟨rfl, -⟩ := myConnect_error htimeout heq
      · exact .inl hfails
      · exact .inr ⟨_, rfl⟩
    · intro e fd' heq
      obtain ⟨hfails, htimedOut⟩ | ⟨rfl, htimedOut⟩ := myConnect_error htimeout heq
      · refine iff_of_false ?_ htimedOut
        rintro ⟨what, rfl⟩
        obtain ⟨hwaiting, -⟩ | ⟨what', hwhat⟩ := hfails
        · cases hwaiting
        · cases hwhat
      · exact iff_of_true ⟨_, rfl⟩ htimedOut

theorem connects_iff_blocking : ConnectExact () 2#32 (myConnect (fun _ => "") () (.ofInt 1)
    ⟨2#32, [.ok 2, .ok 0, .fail EINPROGRESS, .ok 1, .ok 0, .ok 2050, .ok 0], []⟩) := by
  refine (connects_iff (fun _ => "") () (.ofInt 1) (by decide +kernel) 2#32 _).2 ⟨?_, fun _ => rfl⟩
  rintro ⟨v₁, v₂, _ | n, v, rest, hscript⟩
  · cases hscript
  · cases hscript

/-- Where `connect` succeeds at once, a blocking descriptor is left non-blocking. -/
theorem connect_at_once_nonblocking : ¬ConnectExact () 2#32 (myConnect (fun _ => "") () (.ofInt 1)
    ⟨2#32, [.ok 2, .ok 0, .ok 0], []⟩) := by
  intro hexact
  have htimeout : Double.ofInt 0 ≤ Double.ofInt 1 := by decide +kernel
  have hscript : AtOnce [.ok 2, .ok 0, .ok 0] := ⟨2, 0, 0, 0, [], rfl⟩
  obtain ⟨fd', heq, hflags⟩ := myConnect_atOnce (fun _ => "") () htimeout 2#32 hscript
  have hkept := (hexact.returns fd' heq).2.2
  rw [hflags, withOption_true_and] at hkept
  cases hkept

end connect

end Nanonet
