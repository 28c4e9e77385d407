import Nanonet.Net.Sockets

/-!
# `accept` with a timeout

`my_accept` of `detail/network.cpp` on a listening descriptor, over any history of calls. A call with
a timeout switches the listening descriptor to non-blocking mode and leaves it there, so that a later
call without a timeout fails where no connection is pending (`accepts_iff`).
-/

namespace Nanonet

def EAGAIN : Nat := 11

/-- The descriptor is in blocking mode. -/
def Sockets.Blocking {A : Type} (s : Sockets A) (fd : Nat) : Prop :=
  s.flags fd &&& O_NONBLOCK = 0#32

instance {A : Type} (s : Sockets A) (fd : Nat) : Decidable (s.Blocking fd) :=
  inferInstanceAs (Decidable (_ = _))

section calls

variable {A : Type}

/-- The flags of an accepted descriptor. On some systems it inherits those of the listening one. -/
def acceptedFlags (inherits : Bool) (listening : BitVec 32) : BitVec 32 :=
  if inherits then listening else O_RDWR

/-- `do { ret = ::accept( fd , 0 , 0 ) ; } while( EINTR_repeat( ret ) ) ;` over the results to come,
where `EAGAIN` is a moment at which no connection is pending. -/
def repeatAccept (inherits : Bool) (fd : Nat) :
    List SysRet → Sockets A → EStateM.Result NetExn (Sockets A) SysRet
  | [], s => .error .waiting { s with script := [] }
  | r :: script, s =>
    -- a blocking descriptor waits for a connection
    if r = .fail EAGAIN ∧ s.Blocking fd then repeatAccept inherits fd script s
    else
      let s := { s with script := script, trace := s.trace ++ [.accept fd r] }
      if r = .fail EINTR then repeatAccept inherits fd script s
      else
        match r with
        | .fail errno => .ok (.fail errno) s
        | .ok _ => .ok (.ok s.next) (s.openNext (acceptedFlags inherits (s.flags fd)))

def sysAcceptRepeat (inherits : Bool) (fd : Nat) : SocketsCall A SysRet := fun s =>
  repeatAccept inherits fd s.script s

variable (strerror : Nat → String)

def myAcceptBlocking (inherits : Bool) (fd : Nat) : SocketsCall A Nat := do
  match ← sysAcceptRepeat inherits fd with
  | .fail errno => onDescriptor fd (throwSocketError strerror "accept" errno)
  | .ok ret => pure ret

/-- What `my_accept` does once `poll` has found the listening descriptor ready. -/
def acceptReady (inherits : Bool) (fd : Nat) : SocketsCall A Nat := do
  let ret ← myAcceptBlocking strerror inherits fd
  onDescriptor ret (boolFcntlOption strerror O_NONBLOCK "Disabling nonblocking mode" false)
  pure ret

def myAccept (inherits : Bool) (fd : Nat) (timeout : Double) : SocketsCall A Nat := do
  if timeout < .ofInt 0 then myAcceptBlocking strerror inherits fd
  else do
    onDescriptor fd (boolFcntlOption strerror O_NONBLOCK "Enabling nonblocking mode" true)
    let poll_res ← onDescriptor fd (pollOne strerror timeout "accepting connections")
    if poll_res = 0 then throw (.timeoutException "") else acceptReady strerror inherits fd

/-- Calls of `my_accept` one after the other, whether they return or throw. -/
def acceptRun (inherits : Bool) (fd : Nat) (s : Sockets A) (timeouts : List Double) : Sockets A :=
  timeouts.foldl (fun s timeout => stateAfter (myAccept strerror inherits fd timeout s)) s

end calls

/-! ### What `accept` does -/

section spec

variable {A : Type} {strerror : Nat → String} {inherits : Bool} {fd : Nat} {s s' : Sockets A}

/-- Nothing but results of `accept` lies between the two states. -/
structure OnlyResults (fd : Nat) (s s' : Sockets A) : Prop where
  flags : s'.flags = s.flags
  opened : s'.opened = s.opened
  next : s'.next = s.next
  trace : ∃ rs : List SysRet, s'.trace = s.trace ++ rs.map (.accept fd) ∧
    (s.Blocking fd → .fail EAGAIN ∉ rs)

theorem OnlyResults.refl (s : Sockets A) (script : List SysRet) :
    OnlyResults fd s { s with script := script } :=
  ⟨rfl, rfl, rfl, [], by simp, by simp⟩

theorem OnlyResults.cons {r : SysRet} (script : List SysRet)
    (hr : ¬(r = .fail EAGAIN ∧ s.Blocking fd))
    (h : OnlyResults fd { s with script := script, trace := s.trace ++ [.accept fd r] } s') :
    OnlyResults fd s s' := by
  obtain ⟨hflags, hopened, hnext, rs, htrace, hrs⟩ := h
  refine ⟨hflags, hopened, hnext, r :: rs, ?_, fun hblocking => ?_⟩
  · rw [htrace, List.append_assoc]
    rfl
  · rw [List.mem_cons, not_or]
    exact ⟨fun heq => hr ⟨heq.symm, hblocking⟩, hrs hblocking⟩

theorem repeatAccept_cases (inherits : Bool) (fd : Nat) (script : List SysRet) (s : Sockets A) :
    (∃ s', repeatAccept inherits fd script s = .error .waiting s' ∧ OnlyResults fd s s' ∧
      s'.script = []) ∨
    (∃ errno s', repeatAccept inherits fd script s = .ok (.fail errno) s' ∧ OnlyResults fd s s') ∨
    ∃ s', repeatAccept inherits fd script s =
      .ok (.ok s.next) (s'.openNext (acceptedFlags inherits (s.flags fd))) ∧ OnlyResults fd s s' := by
  induction script generalizing s with
  | nil => exact .inl ⟨_, rfl, .refl s [], rfl⟩
  | cons r script ih =>
    rw [repeatAccept]
    by_cases hwait : r = .fail EAGAIN ∧ s.Blocking fd
    · rw [if_pos hwait]
      exact ih s
    rw [if_neg hwait]
    by_cases heintr : r = .fail EINTR
    · rw [if_pos heintr]
      obtain ⟨s', heq, honly, hscript⟩ | ⟨errno, s', heq, honly⟩ | ⟨s', heq, honly⟩ :=
        ih { s with script := script, trace := s.trace ++ [.accept fd r] }
      · exact .inl ⟨s', heq, .cons script hwait honly, hscript⟩
      · exact .inr (.inl ⟨errno, s', heq, .cons script hwait honly⟩)
      · exact .inr (.inr ⟨s', heq, .cons script hwait honly⟩)
    rw [if_neg heintr]
    have honly : OnlyResults fd s { s with script := script, trace := s.trace ++ [.accept fd r] } :=
      .cons script hwait (.refl _ script)
    cases r with
    | fail errno => exact .inr (.inl ⟨errno, _, rfl, honly⟩)
    | ok v => exact .inr (.inr ⟨_, rfl, honly⟩)

theorem myAcceptBlocking_cases (strerror : Nat → String) (inherits : Bool) (fd : Nat)
    (s : Sockets A) :
    (∃ s', myAcceptBlocking strerror inherits fd s = .error .waiting s' ∧ OnlyResults fd s s' ∧
      s'.script = []) ∨
    (∃ what s', myAcceptBlocking strerror inherits fd s = .error (.runtimeError what) s' ∧
      OnlyResults fd s s') ∨
    ∃ s', myAcceptBlocking strerror inherits fd s =
      .ok s.next (s'.openNext (acceptedFlags inherits (s.flags fd))) ∧ OnlyResults fd s s' := by
  unfold myAcceptBlocking
  obtain ⟨s', heq, honly, hscript⟩ | ⟨errno, s', heq, honly⟩ | ⟨s', heq, honly⟩ :=
    repeatAccept_cases inherits fd s.script s
  · exact .inl ⟨s', Call.bind_error heq, honly, hscript⟩
  · refine .inr (.inl ⟨"accept" ++ ": " ++ strerror errno, s', ?_, honly⟩)
    refine (Call.bind_ok heq).trans ?_
    exact onDescriptor_error_iff.2 ⟨_, rfl, (s'.after_descriptor fd).symm⟩
  · exact .inr (.inr ⟨s', Call.bind_ok heq, honly⟩)

theorem myAcceptBlocking_waits (strerror : Nat → String) (inherits : Bool) (fd : Nat)
    (s : Sockets A) : ∃ new,
    (stateAfter (myAcceptBlocking strerror inherits fd s)).trace = s.trace ++ new ∧
      (s.Blocking fd → .accept fd (.fail EAGAIN) ∉ new) := by
  have hnew : ∀ {s'}, OnlyResults fd s s' → ∃ new, s'.trace = s.trace ++ new ∧
      (s.Blocking fd → .accept fd (.fail EAGAIN) ∉ new) := by
    rintro s' ⟨-, -, -, rs, htrace, hrs⟩
    refine ⟨rs.map (.accept fd), htrace, fun hblocking hmem => hrs hblocking ?_⟩
    simpa using hmem
  obtain ⟨s', heq, honly, -⟩ | ⟨what, s', heq, honly⟩ | ⟨s', heq, honly⟩ :=
    myAcceptBlocking_cases strerror inherits fd s
  · rw [heq]
    exact hnew honly
  · rw [heq]
    exact hnew honly
  · obtain ⟨new, htrace, hnone⟩ := hnew honly
    rw [heq]
    exact ⟨new, htrace, hnone⟩

/-! ### One call -/

/-- The listening descriptor is open, and no descriptor that is open will be given out. -/
structure Listening (fd : Nat) (s : Sockets A) : Prop where
  mem : fd ∈ s.opened
  givenOut : s.GivenOut

theorem Listening.congr (h : Listening fd s) (hopened : s'.opened = s.opened)
    (hnext : s'.next = s.next) : Listening fd s' := by
  refine ⟨hopened ▸ h.mem, ?_⟩
  unfold Sockets.GivenOut
  rw [hopened, hnext]
  exact h.givenOut

theorem Listening.ne_next (h : Listening fd s) : fd ≠ s.next :=
  Nat.ne_of_lt (h.givenOut fd h.mem)

theorem Listening.openNext (h : Listening fd s) (flags : BitVec 32) :
    Listening fd (s.openNext flags) := by
  refine ⟨List.mem_cons_of_mem _ h.mem, fun fd' hmem => ?_⟩
  obtain rfl | hmem := List.mem_cons.1 hmem
  · exact Nat.lt_succ_self _
  · exact Nat.lt_succ_of_lt (h.givenOut fd' hmem)

/-- The listening descriptor stays open, in the same mode. -/
def KeepsMode (fd : Nat) (s s' : Sockets A) : Prop :=
  Listening fd s → Listening fd s' ∧ s'.flags fd = s.flags fd

theorem KeepsMode.refl (s : Sockets A) : KeepsMode fd s s := fun h => ⟨h, rfl⟩

theorem KeepsMode.trans {s'' : Sockets A} (h : KeepsMode fd s s') (h' : KeepsMode fd s' s'') :
    KeepsMode fd s s'' := by
  intro hlistening
  obtain ⟨hlistening', hflags⟩ := h hlistening
  obtain ⟨hlistening'', hflags'⟩ := h' hlistening'
  exact ⟨hlistening'', hflags'.trans hflags⟩

theorem OnlyResults.keepsMode (h : OnlyResults fd s s') : KeepsMode fd s s' :=
  fun hlistening => ⟨hlistening.congr h.opened h.next, congrFun h.flags fd⟩

theorem keepsMode_openNext (s : Sockets A) (flags : BitVec 32) :
    KeepsMode fd s (s.openNext flags) :=
  fun h => ⟨h.openNext flags, Function.update_of_ne h.ne_next _ _⟩

theorem keepsMode_after {fd' : Nat} {d : Descriptor A} (hd : fd' = fd → d.flags = s.flags fd) :
    KeepsMode fd s (s.after fd' d) := by
  intro h
  refine ⟨h.congr rfl rfl, ?_⟩
  obtain rfl | hne := eq_or_ne fd fd'
  · rw [Sockets.after_flags_self, hd rfl]
  · exact Sockets.after_flags_of_ne s hne d

theorem myAcceptBlocking_keepsMode (strerror : Nat → String) (inherits : Bool) (s : Sockets A) :
    KeepsMode fd s (stateAfter (myAcceptBlocking strerror inherits fd s)) := by
  obtain ⟨s', heq, honly, -⟩ | ⟨what, s', heq, honly⟩ | ⟨s', heq, honly⟩ :=
    myAcceptBlocking_cases strerror inherits fd s
  · rw [heq]
    exact honly.keepsMode
  · rw [heq]
    exact honly.keepsMode
  · rw [heq]
    exact honly.keepsMode.trans (keepsMode_openNext s' _)

theorem acceptReady_keepsMode (strerror : Nat → String) (inherits : Bool) (s : Sockets A) :
    KeepsMode fd s (stateAfter (acceptReady strerror inherits fd s)) := by
  intro h
  refine Call.stateAfter_bind (R := KeepsMode fd) KeepsMode.trans
    (myAcceptBlocking_keepsMode strerror inherits s)
    (fun ret s' hret => ?_) h
  refine Call.stateAfter_bind (R := KeepsMode fd) KeepsMode.trans ?_ fun _ s'' _ => .refl s''
  rw [stateAfter_onDescriptor]
  -- the accepted descriptor is another one
  refine keepsMode_after fun hsame => ?_
  obtain ⟨_, heq, -⟩ | ⟨_, _, heq, -⟩ | ⟨_, heq, -⟩ :=
    myAcceptBlocking_cases strerror inherits fd s
  · cases hret.symm.trans heq
  · cases hret.symm.trans heq
  · cases hret.symm.trans heq
    exact absurd hsame.symm h.ne_next

/-- The call switches the listening descriptor to non-blocking mode. -/
def Switches (timeout : Double) (script : List SysRet) : Prop :=
  ¬ timeout < .ofInt 0 ∧ ∃ v₁ v₂ rest, script = .ok v₁ :: .ok v₂ :: rest

theorem myAccept_of_switches (strerror : Nat → String) (inherits : Bool) {timeout : Double}
    (hlistening : Listening fd s) (h : Switches timeout s.script) :
    let s' := stateAfter (myAccept strerror inherits fd timeout s)
    Listening fd s' ∧ s'.flags fd = withOption O_NONBLOCK true (s.flags fd) := by
  obtain ⟨htimeout, v₁, v₂, rest, hscript⟩ := h
  obtain ⟨d, hfcntl, hd⟩ : ∃ d, boolFcntlOption strerror O_NONBLOCK "Enabling nonblocking mode" true
      (s.descriptor fd) = .ok () d ∧ d.flags = withOption O_NONBLOCK true (s.flags fd) :=
    ⟨_, boolFcntlOption_ok_iff.2 ⟨v₁, v₂, rest, hscript, rfl⟩, rfl⟩
  intro s'
  have hkept : KeepsMode fd (s.after fd d) s' := by
    unfold s' myAccept
    rw [if_neg htimeout, Call.bind_ok (onDescriptor_ok_iff.2 ⟨d, hfcntl, rfl⟩)]
    refine Call.stateAfter_bind (R := KeepsMode fd) KeepsMode.trans ?_ fun res s'' _ => ?_
    · rw [stateAfter_onDescriptor]
      exact keepsMode_after fun _ => pollOne_flags timeout _ _
    · split_ifs
      · exact .refl s''
      · exact acceptReady_keepsMode strerror inherits s''
  obtain ⟨hlistening', hflags⟩ := hkept (hlistening.congr rfl rfl)
  rw [Sockets.after_flags_self, hd] at hflags
  exact ⟨hlistening', hflags⟩

theorem myAccept_of_not_switches (strerror : Nat → String) (inherits : Bool) {timeout : Double}
    (htimeout : ¬ timeout < .ofInt 0) (h : ¬ Switches timeout s.script) : ∃ e s',
    myAccept strerror inherits fd timeout s = .error e s' ∧ s'.flags fd = s.flags fd ∧
      s'.opened = s.opened ∧ s'.next = s.next ∧ (e = .waiting → s'.script = []) := by
  unfold myAccept
  rw [if_neg htimeout]
  cases hfcntl : boolFcntlOption strerror O_NONBLOCK "Enabling nonblocking mode" true
      (s.descriptor fd) with
  | ok u d =>
    obtain ⟨v₁, v₂, rest, hscript, -⟩ := boolFcntlOption_ok_iff.1 hfcntl
    exact absurd ⟨htimeout, v₁, v₂, rest, hscript⟩ h
  | error e d =>
    refine ⟨e, _, Call.bind_error (onDescriptor_error_iff.2 ⟨d, hfcntl, rfl⟩), ?_, rfl, rfl, ?_⟩
    · rw [Sockets.after_flags_self]
      exact boolFcntlOption_error_flags hfcntl
    · rintro rfl
      exact boolFcntlOption_waiting hfcntl

/-- What a call is to do on a listening descriptor in blocking mode. -/
structure AcceptExact (fd : Nat) (timeout : Double) (s : Sockets A)
    (result : EStateM.Result NetExn (Sockets A) Nat) : Prop where
  blocking : (stateAfter result).Blocking fd
  waits : timeout < .ofInt 0 → ∃ new, (stateAfter result).trace = s.trace ++ new ∧
    .accept fd (.fail EAGAIN) ∉ new
  returns : ∀ ret s', result = .ok ret s' → s'.opened = ret :: s.opened ∧ s'.Blocking ret
  throws : ∀ e s', result = .error e s' → s'.opened = s.opened

theorem blocking_acceptedFlags (h : s.Blocking fd) :
    acceptedFlags inherits (s.flags fd) &&& O_NONBLOCK = 0#32 := by
  unfold acceptedFlags
  split_ifs
  · exact h
  · rfl

theorem myAcceptBlocking_exact {timeout : Double} (hlistening : Listening fd s)
    (hblocking : s.Blocking fd) :
    AcceptExact fd timeout s (myAcceptBlocking strerror inherits fd s) := by
  have hkept := (myAcceptBlocking_keepsMode strerror inherits s hlistening).2
  obtain ⟨new, htrace, hnew⟩ := myAcceptBlocking_waits strerror inherits fd s
  refine ⟨?_, fun _ => ⟨new, htrace, hnew hblocking⟩, fun ret s' hret => ?_, fun e s' hthrow => ?_⟩
  · unfold Sockets.Blocking
    rwa [hkept]
  · obtain ⟨_, heq, -⟩ | ⟨_, _, heq, -⟩ | ⟨s₁, heq, honly⟩ :=
      myAcceptBlocking_cases strerror inherits fd s
    · cases hret.symm.trans heq
    · cases hret.symm.trans heq
    · cases hret.symm.trans heq
      refine ⟨?_, ?_⟩
      · rw [Sockets.openNext, honly.opened, honly.next]
      · rw [Sockets.Blocking, ← honly.next, Sockets.openNext_flags_next]
        exact blocking_acceptedFlags hblocking
  · obtain ⟨_, heq, honly, -⟩ | ⟨_, _, heq, honly⟩ | ⟨_, heq, -⟩ :=
      myAcceptBlocking_cases strerror inherits fd s
    · cases hthrow.symm.trans heq
      exact honly.opened
    · cases hthrow.symm.trans heq
      exact honly.opened
    · cases hthrow.symm.trans heq

theorem acceptExact_iff {timeout : Double} (hlistening : Listening fd s)
    (hblocking : s.Blocking fd) :
    AcceptExact fd timeout s (myAccept strerror inherits fd timeout s) ↔
      ¬ Switches timeout s.script := by
  constructor
  · intro hexact hswitches
    have hflags := (myAccept_of_switches strerror inherits hlistening hswitches).2
    have hmode := hexact.blocking
    rw [Sockets.Blocking, hflags, withOption_true_and] at hmode
    cases hmode
  · intro hswitches
    by_cases htimeout : timeout < .ofInt 0
    · rw [myAccept, if_pos htimeout]
      exact myAcceptBlocking_exact hlistening hblocking
    · obtain ⟨e, s', heq, hflags, hopened, -⟩ := myAccept_of_not_switches strerror inherits
        htimeout hswitches
      rw [heq]
      refine ⟨?_, fun h => absurd h htimeout, fun ret s'' h => (nomatch h), fun e' s'' h => ?_⟩
      · rw [stateAfter, Sockets.Blocking, hflags]
        exact hblocking
      · cases h
        exact hopened

/-! ### Runs -/

theorem myAccept_listening (strerror : Nat → String) (inherits : Bool) (timeout : Double)
    (h : Listening fd s) : Listening fd (stateAfter (myAccept strerror inherits fd timeout s)) := by
  by_cases htimeout : timeout < .ofInt 0
  · rw [myAccept, if_pos htimeout]
    exact (myAcceptBlocking_keepsMode strerror inherits s h).1
  · by_cases hswitches : Switches timeout s.script
    · exact (myAccept_of_switches strerror inherits h hswitches).1
    · obtain ⟨e, s', heq, -, hopened, hnext, -⟩ := myAccept_of_not_switches strerror inherits
        htimeout hswitches
      rw [heq]
      exact h.congr hopened hnext

theorem listening_acceptRun (h : Listening fd s) (timeouts : List Double) :
    Listening fd (acceptRun strerror inherits fd s timeouts) := by
  induction timeouts generalizing s with
  | nil => exact h
  | cons timeout timeouts ih => exact ih (myAccept_listening strerror inherits timeout h)

theorem waitsAtEnd_myAcceptBlocking :
    WaitsAtEnd (A := A) (myAcceptBlocking strerror inherits fd) := by
  intro s s' h
  obtain ⟨_, heq, -, hscript⟩ | ⟨_, _, heq, -⟩ | ⟨_, heq, -⟩ :=
    myAcceptBlocking_cases strerror inherits fd s
  · cases h.symm.trans heq
    exact hscript
  · cases h.symm.trans heq
  · cases h.symm.trans heq

theorem waitsAtEnd_myAccept (timeout : Double) :
    WaitsAtEnd (A := A) (myAccept strerror inherits fd timeout) := by
  unfold myAccept
  split_ifs
  · exact waitsAtEnd_myAcceptBlocking
  · have hfcntl : ∀ fd' msg enable,
        WaitsAtEnd (A := A) (onDescriptor fd' (boolFcntlOption strerror O_NONBLOCK msg enable)) :=
      fun _ _ _ => waitsAtEnd_onDescriptor fun _ _ => boolFcntlOption_waiting
    refine (hfcntl _ _ _).bind fun _ => WaitsAtEnd.bind
      (waitsAtEnd_onDescriptor fun _ _ => pollOne_waiting) fun res => ?_
    split_ifs
    · exact .throw nofun
    · exact waitsAtEnd_myAcceptBlocking.bind fun ret => (hfcntl ret _ _).bind fun _ => .pure ret

theorem not_ended_of_script {timeout : Double} (h : s.script = []) :
    ¬ Ended (myAccept strerror inherits fd timeout s) := by
  unfold Ended
  rw [not_forall]
  unfold myAccept
  split_ifs
  · obtain ⟨s', heq⟩ : ∃ s', sysAcceptRepeat inherits fd s = .error .waiting s' := by
      rw [sysAcceptRepeat, h]
      exact ⟨_, rfl⟩
    exact ⟨s', not_not.2 (Call.bind_error heq)⟩
  · obtain ⟨d, hd⟩ : ∃ d, boolFcntlOption strerror O_NONBLOCK "Enabling nonblocking mode" true
        (s.descriptor fd) = .error .waiting d := by
      rw [Sockets.descriptor, h]
      exact ⟨_, rfl⟩
    exact ⟨_, not_not.2 (Call.bind_error (onDescriptor_error_iff.2 ⟨d, hd, rfl⟩))⟩

theorem acceptRun_blocking {timeouts : List Double} (hlistening : Listening fd s)
    (h : s.Blocking fd ∨ s.script = [])
    (hkeep : ∀ before timeout after, timeouts = before ++ timeout :: after →
      let s' := acceptRun strerror inherits fd s before
      Ended (myAccept strerror inherits fd timeout s') → ¬ Switches timeout s'.script) :
    let s' := acceptRun strerror inherits fd s timeouts
    s'.Blocking fd ∨ s'.script = [] := by
  induction timeouts generalizing s with
  | nil => exact h
  | cons timeout timeouts ih =>
    refine ih (myAccept_listening strerror inherits timeout hlistening) ?_
      fun before t after hsplit => hkeep (timeout :: before) t after (by rw [hsplit]; rfl)
    by_cases hended : Ended (myAccept strerror inherits fd timeout s)
    · have hblocking := h.resolve_right fun hscript => not_ended_of_script hscript hended
      exact .inl ((acceptExact_iff hlistening hblocking).2
        (hkeep [] timeout timeouts rfl hended)).blocking
    · obtain ⟨s', heq⟩ : ∃ s', myAccept strerror inherits fd timeout s = .error .waiting s' := by
        simpa [Ended] using hended
      refine .inr ?_
      show (stateAfter (myAccept strerror inherits fd timeout s)).script = []
      rw [heq]
      exact waitsAtEnd_myAccept timeout s s' heq

/-- **Accepting connections.** In every run of calls on a listening descriptor that starts in
blocking mode, each call that ends does what it is to do iff none switches the mode of the
descriptor, as every call with a timeout does once its `fcntl` calls succeed. -/
theorem accepts_iff (strerror : Nat → String) (inherits : Bool) (fd : Nat) (s : Sockets A)
    (hlistening : Listening fd s) (hblocking : s.Blocking fd) (timeouts : List Double) :
    (∀ before timeout after, timeouts = before ++ timeout :: after →
      let s' := acceptRun strerror inherits fd s before
      let result := myAccept strerror inherits fd timeout s'
      Ended result → AcceptExact fd timeout s' result) ↔
    ∀ before timeout after, timeouts = before ++ timeout :: after →
      let s' := acceptRun strerror inherits fd s before
      Ended (myAccept strerror inherits fd timeout s') → ¬ Switches timeout s'.script := by
  constructor
  · intro hexact before timeout after hsplit s' hended hswitches
    have hflags := (myAccept_of_switches strerror inherits
      (listening_acceptRun hlistening before) hswitches).2
    have hmode := (hexact before timeout after hsplit hended).blocking
    rw [Sockets.Blocking, hflags, withOption_true_and] at hmode
    cases hmode
  · intro hkeep before timeout after hsplit s' result hended
    have hprefix : ∀ b t a, before = b ++ t :: a →
        let s' := acceptRun strerror inherits fd s b
        Ended (myAccept strerror inherits fd t s') → ¬ Switches t s'.script := by
      intro b t a hb
      exact hkeep b t (a ++ timeout :: after) (by rw [hsplit, hb]; simp)
    have hmode : s'.Blocking fd := by
      refine (acceptRun_blocking hlistening (.inl hblocking) hprefix).resolve_right fun hscript => ?_
      exact not_ended_of_script hscript hended
    exact (acceptExact_iff (listening_acceptRun hlistening before) hmode).2
      (hkeep before timeout after hsplit hended)

/-- A listening descriptor 3 in blocking mode, with these results to come. -/
def listeningSocket (script : List SysRet) : Sockets Unit := ⟨fun _ => O_RDWR, [3], 4, script, []⟩

theorem listening_listeningSocket (script : List SysRet) : Listening 3 (listeningSocket script) := by
  refine ⟨List.mem_singleton_self 3, fun fd hmem => ?_⟩
  obtain rfl := List.mem_singleton.1 hmem
  exact Nat.lt_succ_self 3

theorem accepts_iff_untimed :
    let s := listeningSocket [.fail EAGAIN, .fail EINTR, .ok 7]
    ∀ before timeout after, [.ofInt (-1)] = before ++ timeout :: after →
      let s' := acceptRun (fun _ => "") false 3 s before
      let result := myAccept (fun _ => "") false 3 timeout s'
      Ended result → AcceptExact 3 timeout s' result := by
  intro s
  refine (accepts_iff (fun _ => "") false 3 s (listening_listeningSocket _)
    (by decide) _).2 ?_
  intro before timeout after hsplit s' hended hswitches
  obtain ⟨rfl, rfl, -⟩ : before = [] ∧ timeout = .ofInt (-1) ∧ after = [] := by
    cases before <;> simp_all
  exact hswitches.1 (by decide +kernel)

/-- A call with a timeout that times out leaves the listening descriptor non-blocking. -/
theorem accept_stays_nonblocking :
    let s := listeningSocket [.ok 2, .ok 0, .ok 0, .fail EAGAIN]
    ¬ ∀ before timeout after, [.ofInt 1, .ofInt (-1)] = before ++ timeout :: after →
      let s' := acceptRun (fun _ => "") false 3 s before
      let result := myAccept (fun _ => "") false 3 timeout s'
      Ended result → AcceptExact 3 timeout s' result := by
  intro s hexact
  have htimeout : ¬ Double.ofInt 1 < Double.ofInt 0 := by decide +kernel
  have hms : timeoutMs (.ofInt 1) = .ok 1000 := by decide +kernel
  have hended : Ended (myAccept (fun _ => "") false 3 (.ofInt 1) s) := by
    intro s' h
    rw [myAccept, if_neg htimeout] at h
    rw [Call.bind_ok (onDescriptor_ok_iff.2 ⟨_, boolFcntlOption_ok_iff.2 ⟨2, 0, _, rfl, rfl⟩, rfl⟩)]
      at h
    rw [Call.bind_ok (onDescriptor_ok_iff.2 ⟨_, pollOne_ok_iff.2 ⟨1000, 0, _, hms, rfl, rfl⟩, rfl⟩)]
      at h
    cases h
  have hmode := (hexact [] (.ofInt 1) [.ofInt (-1)] rfl hended).blocking
  have hswitches : Switches (.ofInt 1) s.script := ⟨htimeout, 2, 0, _, rfl⟩
  have hflags := (myAccept_of_switches (fun _ => "") false (listening_listeningSocket _)
    hswitches).2
  rw [Sockets.Blocking, acceptRun, List.foldl_nil, hflags, withOption_true_and] at hmode
  cases hmode

end spec

end Nanonet
