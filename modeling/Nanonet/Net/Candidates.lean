import Nanonet.Net.Sockets

/-!
# Outgoing connections

`connection::initialize` of `network.cpp`, which tries pairs of a local and a remote address until
one connects. The two loops are one loop over the pairs of equal family (`connectionInitialize_eq`).
It returns the socket of the first pair that connects and has closed those of the others. Where no
pair connects it throws a `std::runtime_error`, also where every attempt timed out
(`connectsInOrder_iff`).
-/

namespace Nanonet

/-- What an exception says; nothing where the call has not ended. -/
def NetExn.what : NetExn → Option String
  | .runtimeError what => some what
  | .timeoutException what => some what
  | .waiting => none
  | .unspecified => none

def NetExn.IsTimeout (e : NetExn) : Prop := ∃ what, e = .timeoutException what

section calls

variable {A : Type} (strerror : Nat → String)

/-- `socket( family )`, which checks that there is a descriptor. -/
def openSocket (family : AddressFamily) : SocketsCall A Nat := fun s =>
  match s.script with
  | [] => .error .waiting s
  | r :: script =>
    let s := { s with script := script, trace := s.trace ++ [.socket family r] }
    match r with
    | .fail errno => .error (.runtimeError ("socket" ++ ": " ++ strerror errno)) s
    | .ok _ => .ok s.next (s.openNext O_RDWR)

/-- `do { ret = ::bind( fd , a , len ) ; } while( EINTR_repeat( ret ) ) ;` -/
def repeatBind (fd : Nat) (a : A) :
    List SysRet → Sockets A → EStateM.Result NetExn (Sockets A) SysRet
  | [], s => .error .waiting { s with script := [] }
  | r :: script, s =>
    let s := { s with script := script, trace := s.trace ++ [.bind fd a r] }
    if r = .fail EINTR then repeatBind fd a script s else .ok r s

def sysBindRepeat (fd : Nat) (a : A) : SocketsCall A SysRet := fun s =>
  repeatBind fd a s.script s

def myBind (fd : Nat) (a : A) : SocketsCall A Unit := do
  match ← sysBindRepeat fd a with
  | .fail errno => onDescriptor fd (throwSocketError strerror "bind" errno)
  | .ok _ => pure ()

/-- The scope of a socket: it is returned, or closed where an exception leaves the scope. -/
def orClose (fd : Nat) (x : SocketsCall A Unit) : SocketsCall A Nat := fun s =>
  match x s with
  | .ok () s => .ok fd s
  | .error e s => .error e (if e.what.isSome then s.close fd else s)

variable (family : A → AddressFamily) (to_string : A → String) (timeout : Double)

/-- The first `try` block of `initialize`. -/
def connectUnbound (remote : A) : SocketsCall A Nat := do
  let s ← openSocket strerror (family remote)
  orClose s (onDescriptor s (myConnect strerror remote timeout))

/-- The second `try` block of `initialize`. -/
def connectBound (loc remote : A) : SocketsCall A Nat := do
  let s ← openSocket strerror (family loc)
  orClose s do
    myBind strerror s loc
    onDescriptor s (myConnect strerror remote timeout)

/-- `if (not err.empty()) { err += "; "; } err += text;` -/
def appendError (err text : String) : String := (if err = "" then err else err ++ "; ") ++ text

/-- A `try` block with its `catch` block, which appends the error to those before. -/
def tryBlock (x : SocketsCall A Nat) (ends err : String) : SocketsCall A (Except String Nat) :=
  fun s =>
    match x s with
    | .ok fd s => .ok (.ok fd) s
    | .error e s =>
      match e.what with
      | some what => .ok (.error (appendError err (ends ++ ": " ++ what))) s
      | none => .error e s

/-- The loop over the remote addresses without local ones. -/
def tryUnbound : List A → String → SocketsCall A (Except String Nat)
  | [], err => pure (.error err)
  | remote :: ra, err => do
    match ← tryBlock (connectUnbound strerror family timeout remote)
        ("from (unbound local socket) to " ++ to_string remote) err with
    | .ok s => pure (.ok s)
    | .error err => tryUnbound ra err

/-- The inner loop, over the remote addresses for a local one. -/
def tryRemotes (loc : A) : List A → String → SocketsCall A (Except String Nat)
  | [], err => pure (.error err)
  | remote :: ra, err =>
    if family loc ≠ family remote then tryRemotes loc ra err
    else do
      match ← tryBlock (connectBound strerror family timeout loc remote)
          ("from " ++ to_string loc ++ " to " ++ to_string remote) err with
      | .ok s => pure (.ok s)
      | .error err => tryRemotes loc ra err

/-- The outer loop, over the local addresses. -/
def tryLocals (ra : List A) : List A → String → SocketsCall A (Except String Nat)
  | [], err => pure (.error err)
  | loc :: la, err => do
    match ← tryRemotes strerror family to_string timeout loc ra err with
    | .ok s => pure (.ok s)
    | .error err => tryLocals ra la err

/-- `connection::initialize( ra , la , timeout )` -/
def connectionInitialize (ra la : List A) : SocketsCall A Nat := do
  match ← if la = [] then tryUnbound strerror family to_string timeout ra ""
      else tryLocals strerror family to_string timeout ra la "" with
  | .ok s => pure s
  | .error err =>
    let err := if err = "" then "Local/remote address families didn't match" else err
    throw (.runtimeError ("Failed to connect: " ++ err))

end calls

/-! ### One loop over the candidates -/

/-- A remote address, with a local one to bind to. -/
structure Candidate (A : Type) where
  loc : Option A
  remote : A

section candidates

variable {A : Type} (strerror : Nat → String) (family : A → AddressFamily) (to_string : A → String)
  (timeout : Double)

/-- The attempt to connect: the socket is created, bound where there is a local address, and
connected. -/
def Candidate.attempt (c : Candidate A) : SocketsCall A Nat :=
  match c.loc with
  | none => connectUnbound strerror family timeout c.remote
  | some loc => connectBound strerror family timeout loc c.remote

/-- What an error says of the two ends. -/
def Candidate.ends (c : Candidate A) : String :=
  match c.loc with
  | none => "from (unbound local socket) to " ++ to_string c.remote
  | some loc => "from " ++ to_string loc ++ " to " ++ to_string c.remote

/-- The pairs that may be tried, in order. -/
def candidates (ra la : List A) : List (Candidate A) :=
  if la = [] then ra.map fun remote => ⟨none, remote⟩
  else la.flatMap fun loc =>
    (ra.filter fun remote => family loc = family remote).map fun remote => ⟨some loc, remote⟩

/-- The attempts one after the other, with the errors so far. -/
def tryAll : List (Candidate A) → String → SocketsCall A (Except String Nat)
  | [], err => pure (.error err)
  | c :: cs, err => do
    match ← tryBlock (c.attempt strerror family timeout) (c.ends to_string) err with
    | .ok s => pure (.ok s)
    | .error err => tryAll cs err

variable {strerror family to_string timeout}

theorem tryUnbound_eq (ra : List A) (err : String) :
    tryUnbound strerror family to_string timeout ra err =
      tryAll strerror family to_string timeout (ra.map fun remote => ⟨none, remote⟩) err := by
  induction ra generalizing err with
  | nil => rfl
  | cons remote ra ih =>
    rw [tryUnbound, List.map_cons, tryAll]
    simp only [ih]
    rfl

theorem tryRemotes_eq (loc : A) (ra : List A) (err : String) :
    tryRemotes strerror family to_string timeout loc ra err =
      tryAll strerror family to_string timeout
        ((ra.filter fun remote => family loc = family remote).map fun remote => ⟨some loc, remote⟩)
        err := by
  induction ra generalizing err with
  | nil => rfl
  | cons remote ra ih =>
    rw [tryRemotes]
    by_cases hfamily : family loc = family remote
    · rw [if_neg (not_not.2 hfamily), List.filter_cons_of_pos (by simpa using hfamily),
        List.map_cons, tryAll]
      simp only [ih]
      rfl
    · rw [if_pos hfamily, List.filter_cons_of_neg (by simpa using hfamily)]
      exact ih err

theorem tryAll_append (cs ds : List (Candidate A)) (err : String) :
    tryAll strerror family to_string timeout (cs ++ ds) err = (do
      match ← tryAll strerror family to_string timeout cs err with
      | .ok s => pure (.ok s)
      | .error err => tryAll strerror family to_string timeout ds err) := by
  induction cs generalizing err with
  | nil => rfl
  | cons c cs ih =>
    rw [List.cons_append, tryAll, tryAll, bind_assoc]
    refine congrArg _ (funext fun r => ?_)
    cases r with
    | ok s => rfl
    | error err => exact ih err

theorem tryLocals_eq (ra la : List A) (err : String) :
    tryLocals strerror family to_string timeout ra la err =
      tryAll strerror family to_string timeout (la.flatMap fun loc =>
        (ra.filter fun remote => family loc = family remote).map fun remote => ⟨some loc, remote⟩)
        err := by
  induction la generalizing err with
  | nil => rfl
  | cons loc la ih =>
    rw [tryLocals, List.flatMap_cons, tryAll_append, tryRemotes_eq]
    refine congrArg _ (funext fun r => ?_)
    cases r with
    | ok s => rfl
    | error err => exact ih err

theorem connectionInitialize_eq (ra la : List A) :
    connectionInitialize strerror family to_string timeout ra la = (do
      match ← tryAll strerror family to_string timeout (candidates family ra la) "" with
      | .ok s => pure s
      | .error err =>
        let err := if err = "" then "Local/remote address families didn't match" else err
        throw (.runtimeError ("Failed to connect: " ++ err))) := by
  unfold connectionInitialize candidates
  split_ifs
  · rw [tryUnbound_eq]
  · rw [tryLocals_eq]

/-! ### One attempt -/

section attempt

variable {fd : Nat} {a : A} {s s' : Sockets A} {e : NetExn} {c : Candidate A}

theorem repeatBind_cases (fd : Nat) (a : A) (script : List SysRet) (s : Sockets A) :
    (∃ s', repeatBind fd a script s = .error .waiting s' ∧ s'.opened = s.opened) ∨
    ∃ n r rest s', script = interrupted n r rest ∧ repeatBind fd a script s = .ok r s' ∧
      s'.script = rest ∧ s'.opened = s.opened := by
  induction script generalizing s with
  | nil => exact .inl ⟨_, rfl, rfl⟩
  | cons r script ih =>
    rw [repeatBind]
    by_cases heintr : r = .fail EINTR
    · rw [if_pos heintr]
      obtain ⟨s', heq, hopened⟩ | ⟨n, r', rest, s', hscript, heq, hrest, hopened⟩ :=
        ih { s with script := script, trace := s.trace ++ [.bind fd a r] }
      · exact .inl ⟨s', heq, hopened⟩
      · exact .inr ⟨n + 1, r', rest, s', by rw [heintr, hscript]; rfl, heq, hrest, hopened⟩
    · rw [if_neg heintr]
      exact .inr ⟨0, r, script, _, rfl, rfl, rfl, rfl⟩

theorem repeatBind_interrupted (fd : Nat) (a : A) {r : SysRet} (hr : r ≠ .fail EINTR) (n : Nat)
    (rest : List SysRet) (s : Sockets A) : ∃ s', repeatBind fd a (interrupted n r rest) s = .ok r s' ∧
      s'.script = rest := by
  induction n generalizing s with
  | zero => exact ⟨_, if_neg hr, rfl⟩
  | succ n ih => exact ih _

theorem myBind_opened (s : Sockets A) : (stateAfter (myBind strerror fd a s)).opened = s.opened := by
  refine Call.stateAfter_bind (R := fun s s' : Sockets A => s'.opened = s.opened)
    (fun h h' => h'.trans h) ?_ fun r s' _ => ?_
  · obtain ⟨s', heq, hopened⟩ | ⟨n, r, rest, s', -, heq, -, hopened⟩ :=
      repeatBind_cases fd a s.script s
    · rwa [sysBindRepeat, heq]
    · rwa [sysBindRepeat, heq]
  · cases r with
    | fail errno =>
      rw [stateAfter_onDescriptor]
      rfl
    | ok v => rfl

theorem attempt_cases (strerror : Nat → String) (family : A → AddressFamily) (timeout : Double)
    (c : Candidate A) : ∃ (fam : AddressFamily) (x : Nat → SocketsCall A Unit),
    (c.attempt strerror family timeout = do
      let s ← openSocket strerror fam
      orClose s (x s)) ∧ ∀ fd s, (stateAfter (x fd s)).opened = s.opened := by
  obtain ⟨_ | loc, remote⟩ := c
  · refine ⟨_, fun fd => onDescriptor fd (myConnect strerror remote timeout), rfl, fun fd s => ?_⟩
    rw [stateAfter_onDescriptor]
    rfl
  · refine ⟨_, fun fd => do
      myBind strerror fd loc
      onDescriptor fd (myConnect strerror remote timeout), rfl, fun fd s => ?_⟩
    refine Call.stateAfter_bind (R := fun s s' : Sockets A => s'.opened = s.opened)
      (fun h h' => h'.trans h) (myBind_opened s) fun _ s' _ => ?_
    rw [stateAfter_onDescriptor]
    rfl

theorem openSocket_ok {family : AddressFamily} (h : openSocket strerror family s = .ok fd s') :
    ∃ v, s.script = .ok v :: s'.script ∧ s'.opened = fd :: s.opened := by
  unfold openSocket at h
  split at h
  · cases h
  · next r script hscript =>
    cases r with
    | fail errno => cases h
    | ok v =>
      cases h
      exact ⟨v, hscript, rfl⟩

theorem openSocket_error {family : AddressFamily} (h : openSocket strerror family s = .error e s') :
    s'.opened = s.opened ∧ ¬ e.IsTimeout := by
  unfold openSocket at h
  split at h
  · cases h
    exact ⟨rfl, nofun⟩
  · next r script hscript =>
    cases r with
    | ok v => cases h
    | fail errno =>
      cases h
      exact ⟨rfl, nofun⟩

theorem openSocket_of_ok (strerror : Nat → String) (family : AddressFamily) {v : Nat}
    {rest : List SysRet} (h : s.script = .ok v :: rest) :
    ∃ fd s', openSocket strerror family s = .ok fd s' ∧ s'.script = rest := by
  unfold openSocket
  rw [h]
  exact ⟨_, _, rfl, rfl⟩

theorem orClose_ok {x : SocketsCall A Unit} {fd' : Nat} (h : orClose fd x s = .ok fd' s') :
    fd' = fd ∧ x s = .ok () s' := by
  unfold orClose at h
  split at h
  · next heq =>
    cases h
    exact ⟨rfl, heq⟩
  · cases h

theorem orClose_error {x : SocketsCall A Unit} (h : orClose fd x s = .error e s') :
    ∃ s₁, x s = .error e s₁ ∧ s' = if e.what.isSome then s₁.close fd else s₁ := by
  unfold orClose at h
  split at h
  · cases h
  · next s₁ heq =>
    cases h
    exact ⟨s₁, heq, rfl⟩

theorem orClose_of_error {x : SocketsCall A Unit} (h : x s = .error e s') :
    orClose fd x s = .error e (if e.what.isSome then s'.close fd else s') := by
  rw [orClose, h]

theorem attempt_ok (h : c.attempt strerror family timeout s = .ok fd s') :
    s'.opened = fd :: s.opened := by
  obtain ⟨fam, x, heq, hx⟩ := attempt_cases strerror family timeout c
  rw [heq] at h
  obtain ⟨fd', s₁, hopen, h⟩ := Call.of_bind_ok h
  obtain ⟨v, -, hopened⟩ := openSocket_ok hopen
  obtain ⟨rfl, hrest⟩ := orClose_ok h
  have hkept := hx fd s₁
  rw [hrest] at hkept
  exact Eq.trans hkept hopened

theorem attempt_error (h : c.attempt strerror family timeout s = .error e s')
    (he : e.what.isSome) : s'.opened = s.opened := by
  obtain ⟨fam, x, heq, hx⟩ := attempt_cases strerror family timeout c
  rw [heq] at h
  obtain hopen | ⟨fd', s₁, hopen, h⟩ := Call.of_bind_error h
  · exact (openSocket_error hopen).1
  obtain ⟨v, -, hopened⟩ := openSocket_ok hopen
  obtain ⟨s₂, hrest, rfl⟩ := orClose_error h
  have hkept : s₂.opened = s₁.opened := by
    have hkept := hx fd' s₁
    rwa [hrest] at hkept
  rw [if_pos he, Sockets.close, hkept, hopened, List.erase_cons_head]

/-- The results with which an attempt times out, and those behind them. -/
def Candidate.TimesOut (timeout : Double) (c : Candidate A) (script rest : List SysRet) : Prop :=
  ∃ ms v v₁ v₂ n m, timeoutMs timeout = .ok ms ∧
    let connecting : List SysRet := .ok v₁ :: .ok v₂ ::
      interrupted n (.fail EINPROGRESS) (interrupted m (.ok 0) rest)
    match c.loc with
    | none => script = .ok v :: connecting
    | some _ => ∃ k w, script = .ok v :: interrupted k (.ok w) connecting

theorem onDescriptor_timeout_iff (strerror : Nat → String) (fd : Nat) (remote : A)
    (htimeout : .ofInt 0 ≤ timeout) {rest : List SysRet} :
    (∃ what s', onDescriptor fd (myConnect strerror remote timeout) s =
      .error (.timeoutException what) s' ∧ s'.script = rest) ↔
    ∃ ms v₁ v₂ n m, timeoutMs timeout = .ok ms ∧ s.script = .ok v₁ :: .ok v₂ ::
      interrupted n (.fail EINPROGRESS) (interrupted m (.ok 0) rest) := by
  rw [← myConnect_timeout_iff strerror remote htimeout (s.flags fd) []]
  constructor
  · rintro ⟨what, s', h, rfl⟩
    obtain ⟨d, hd, rfl⟩ := onDescriptor_error_iff.1 h
    exact ⟨what, d, hd, rfl⟩
  · rintro ⟨what, d, hd, rfl⟩
    exact ⟨what, _, onDescriptor_error_iff.2 ⟨d, hd, rfl⟩, rfl⟩

theorem myBind_ok {u : Unit} (h : myBind strerror fd a s = .ok u s') :
    ∃ k w, s.script = interrupted k (.ok w) s'.script := by
  obtain ⟨r, s₁, hbind, h⟩ := Call.of_bind_ok h
  obtain ⟨s₂, heq, -⟩ | ⟨n, r', rest, s₂, hscript, heq, hrest, -⟩ := repeatBind_cases fd a s.script s
  · cases hbind.symm.trans heq
  · cases hbind.symm.trans heq
    cases r with
    | fail errno =>
      obtain ⟨d, hd, -⟩ := onDescriptor_ok_iff.1 h
      cases hd
    | ok w =>
      cases h
      exact ⟨n, w, by rw [hscript, hrest]⟩

theorem myBind_error (h : myBind strerror fd a s = .error e s') : ¬ e.IsTimeout := by
  obtain hbind | ⟨r, s₁, -, h⟩ := Call.of_bind_error h
  · obtain ⟨s₂, heq, -⟩ | ⟨n, r, rest, s₂, -, heq, -⟩ := repeatBind_cases fd a s.script s
    · cases hbind.symm.trans heq
      exact nofun
    · cases hbind.symm.trans heq
  · cases r with
    | fail errno =>
      obtain ⟨d, hd, -⟩ := onDescriptor_error_iff.1 h
      cases hd
      exact nofun
    | ok w => cases h

theorem myBind_of_interrupted (strerror : Nat → String) (fd : Nat) (a : A) {k w : Nat}
    {rest : List SysRet} (h : s.script = interrupted k (.ok w) rest) :
    ∃ s', myBind strerror fd a s = .ok () s' ∧ s'.script = rest := by
  obtain ⟨s', heq, hrest⟩ := repeatBind_interrupted fd a (r := .ok w) nofun k rest s
  rw [← h] at heq
  exact ⟨s', Call.bind_ok heq, hrest⟩

theorem scope_timeout_iff {family : AddressFamily} {x : Nat → SocketsCall A Unit}
    {rest : List SysRet} :
    (∃ e s', (do
      let s ← openSocket strerror family
      orClose s (x s)) s = .error e s' ∧ e.IsTimeout ∧ s'.script = rest) ↔
    ∃ fd s₁, openSocket strerror family s = .ok fd s₁ ∧
      ∃ what s', x fd s₁ = .error (.timeoutException what) s' ∧ s'.script = rest := by
  constructor
  · rintro ⟨e, s', h, ⟨what, rfl⟩, rfl⟩
    obtain hopen | ⟨fd, s₁, hopen, h⟩ := Call.of_bind_error h
    · exact absurd ⟨what, rfl⟩ (openSocket_error hopen).2
    · obtain ⟨s₂, hx, rfl⟩ := orClose_error h
      exact ⟨fd, s₁, hopen, what, s₂, hx, rfl⟩
  · rintro ⟨fd, s₁, hopen, what, s', hx, rfl⟩
    exact ⟨_, _, (Call.bind_ok hopen).trans (orClose_of_error hx), ⟨what, rfl⟩, rfl⟩

theorem attempt_timeout_iff (strerror : Nat → String) (family : A → AddressFamily)
    (htimeout : .ofInt 0 ≤ timeout) {rest : List SysRet} :
    (∃ e s', c.attempt strerror family timeout s = .error e s' ∧ e.IsTimeout ∧ s'.script = rest) ↔
      c.TimesOut timeout s.script rest := by
  obtain ⟨_ | loc, remote⟩ := c
  · refine (scope_timeout_iff (x := fun fd =>
      onDescriptor fd (myConnect strerror remote timeout))).trans ⟨?_, ?_⟩
    · rintro ⟨fd, s₁, hopen, h⟩
      obtain ⟨v, hscript, -⟩ := openSocket_ok hopen
      obtain ⟨ms, v₁, v₂, n, m, hms, hrest⟩ :=
        (onDescriptor_timeout_iff strerror fd remote htimeout).1 h
      exact ⟨ms, v, v₁, v₂, n, m, hms, by rw [hscript, hrest]⟩
    · rintro ⟨ms, v, v₁, v₂, n, m, hms, hscript⟩
      obtain ⟨fd, s₁, hopen, hrest⟩ := openSocket_of_ok strerror (family remote) hscript
      exact ⟨fd, s₁, hopen,
        (onDescriptor_timeout_iff strerror fd remote htimeout).2 ⟨ms, v₁, v₂, n, m, hms, hrest⟩⟩
  · refine (scope_timeout_iff (x := fun fd => do
      myBind strerror fd loc
      onDescriptor fd (myConnect strerror remote timeout))).trans ⟨?_, ?_⟩
    · rintro ⟨fd, s₁, hopen, what, s', h, hrest⟩
      obtain ⟨v, hscript, -⟩ := openSocket_ok hopen
      obtain hbind | ⟨u, s₂, hbind, h⟩ := Call.of_bind_error h
      · exact absurd ⟨what, rfl⟩ (myBind_error hbind)
      obtain ⟨k, w, hscript'⟩ := myBind_ok hbind
      obtain ⟨ms, v₁, v₂, n, m, hms, hrest'⟩ := (onDescriptor_timeout_iff strerror fd remote
        htimeout).1 ⟨what, s', h, hrest⟩
      exact ⟨ms, v, v₁, v₂, n, m, hms, k, w, by rw [hscript, hscript', hrest']⟩
    · rintro ⟨ms, v, v₁, v₂, n, m, hms, k, w, hscript⟩
      obtain ⟨fd, s₁, hopen, hrest⟩ := openSocket_of_ok strerror (family loc) hscript
      obtain ⟨s₂, hbind, hrest'⟩ := myBind_of_interrupted strerror fd loc hrest
      obtain ⟨what, s', h, hlast⟩ := (onDescriptor_timeout_iff strerror fd remote
        htimeout).2 ⟨ms, v₁, v₂, n, m, hms, hrest'⟩
      exact ⟨fd, s₁, hopen, what, s', (Call.bind_ok hbind).trans h, hlast⟩

end attempt

/-! ### All attempts -/

section run

variable {cs : List (Candidate A)} {s s' : Sockets A} {es : List NetExn}

variable (strerror family timeout) in
/-- The attempts are made one after the other, and each of them throws. -/
inductive AllFail : List (Candidate A) → Sockets A → List NetExn → Sockets A → Prop where
  | nil (s : Sockets A) : AllFail [] s [] s
  | cons {c : Candidate A} {cs : List (Candidate A)} {s s₁ s₂ : Sockets A} {e : NetExn}
      {es : List NetExn} : c.attempt strerror family timeout s = .error e s₁ → e.what.isSome →
      AllFail cs s₁ es s₂ → AllFail (c :: cs) s (e :: es) s₂

theorem AllFail.opened (h : AllFail strerror family timeout cs s es s') : s'.opened = s.opened := by
  induction h with
  | nil s => rfl
  | cons hattempt he _ ih => exact ih.trans (attempt_error hattempt he)

theorem AllFail.tryAll_eq (h : AllFail strerror family timeout cs s es s') (to_string : A → String)
    (ds : List (Candidate A)) (err : String) :
    ∃ err', tryAll strerror family to_string timeout (cs ++ ds) err s =
      tryAll strerror family to_string timeout ds err' s' := by
  induction h generalizing err with
  | nil s => exact ⟨err, rfl⟩
  | @cons c cs s s₁ s₂ e es hattempt he _ ih =>
    obtain ⟨what, hwhat⟩ := Option.isSome_iff_exists.1 he
    obtain ⟨err', heq⟩ := ih (appendError err (c.ends to_string ++ ": " ++ what))
    refine ⟨err', ?_⟩
    have hblock : tryBlock (c.attempt strerror family timeout) (c.ends to_string) err s =
        .ok (.error (appendError err (c.ends to_string ++ ": " ++ what))) s₁ := by
      simp only [tryBlock, hattempt, hwhat]
    rw [List.cons_append, tryAll, Call.bind_ok hblock]
    exact heq

/-- The attempts that time out, one after the other. -/
def AllTimeOut (timeout : Double) : List (Candidate A) → List SysRet → Prop
  | [], _ => True
  | c :: cs, script => ∃ rest, c.TimesOut timeout script rest ∧ AllTimeOut timeout cs rest

theorem allTimeOut_iff (strerror : Nat → String) (family : A → AddressFamily)
    (htimeout : .ofInt 0 ≤ timeout) :
    AllTimeOut timeout cs s.script ↔
      ∃ es s', AllFail strerror family timeout cs s es s' ∧ ∀ e ∈ es, e.IsTimeout := by
  induction cs generalizing s with
  | nil => exact iff_of_true trivial ⟨[], s, .nil s, by simp⟩
  | cons c cs ih =>
    constructor
    · rintro ⟨rest, hc, hcs⟩
      obtain ⟨e, s₁, hattempt, he, rfl⟩ := (attempt_timeout_iff strerror family
        htimeout).2 hc
      obtain ⟨es, s', hfail, hes⟩ := ih.1 hcs
      obtain ⟨what, rfl⟩ := he
      refine ⟨_, s', .cons hattempt rfl hfail, fun e he => ?_⟩
      obtain rfl | he := List.mem_cons.1 he
      · exact ⟨what, rfl⟩
      · exact hes e he
    · rintro ⟨_, s', hfail, hes⟩
      cases hfail with
      | cons hattempt he hfail =>
        refine ⟨_, (attempt_timeout_iff strerror family htimeout).1
          ⟨_, _, hattempt, hes _ (by simp), rfl⟩, ?_⟩
        exact ih.2 ⟨_, s', hfail, fun e he => hes e (List.mem_cons_of_mem _ he)⟩

variable (strerror family timeout) in
/-- What `initialize` is to do with the candidates. -/
structure ConnectsInOrder (cs : List (Candidate A)) (s : Sockets A)
    (result : EStateM.Result NetExn (Sockets A) Nat) : Prop where
  succeeds : ∀ failed c later es s₁ fd s', cs = failed ++ c :: later →
    AllFail strerror family timeout failed s es s₁ →
    c.attempt strerror family timeout s₁ = .ok fd s' →
    result = .ok fd s' ∧ s'.opened = fd :: s.opened
  fails : ∀ es s', AllFail strerror family timeout cs s es s' →
    ∃ e, result = .error e s' ∧ e.what.isSome ∧ s'.opened = s.opened ∧
      (.ofInt 0 ≤ timeout → cs ≠ [] → (∀ e ∈ es, e.IsTimeout) → e.IsTimeout)

theorem connectionInitialize_succeeds {ra la : List A} {failed later : List (Candidate A)}
    {c : Candidate A} {s₁ : Sockets A} {fd : Nat}
    (hcs : candidates family ra la = failed ++ c :: later)
    (hfail : AllFail strerror family timeout failed s es s₁)
    (hattempt : c.attempt strerror family timeout s₁ = .ok fd s') :
    connectionInitialize strerror family to_string timeout ra la s = .ok fd s' := by
  obtain ⟨err, heq⟩ := hfail.tryAll_eq to_string (c :: later) ""
  have hblock : tryBlock (c.attempt strerror family timeout) (c.ends to_string) err s₁ =
      .ok (.ok fd) s' := by
    simp only [tryBlock, hattempt]
  have hall : tryAll strerror family to_string timeout (failed ++ c :: later) "" s =
      .ok (.ok fd) s' := by
    rw [heq, tryAll, Call.bind_ok hblock]
    rfl
  rw [connectionInitialize_eq, hcs, Call.bind_ok hall]
  rfl

theorem connectionInitialize_fails (to_string : A → String) {ra la : List A}
    (hfail : AllFail strerror family timeout (candidates family ra la) s es s') :
    ∃ what, connectionInitialize strerror family to_string timeout ra la s =
      .error (.runtimeError what) s' := by
  obtain ⟨err, heq⟩ := hfail.tryAll_eq to_string [] ""
  rw [List.append_nil] at heq
  rw [connectionInitialize_eq]
  exact ⟨_, Call.bind_ok (heq.trans rfl)⟩

theorem not_connectsInOrder_of_allTimeOut (strerror : Nat → String) (family : A → AddressFamily)
    (to_string : A → String) {ra la : List A} (htimeout : .ofInt 0 ≤ timeout)
    (hne : candidates family ra la ≠ [])
    (hall : AllTimeOut timeout (candidates family ra la) s.script) :
    ¬ ConnectsInOrder strerror family timeout (candidates family ra la) s
      (connectionInitialize strerror family to_string timeout ra la s) := by
  intro hexact
  obtain ⟨es, s', hfail, hes⟩ := (allTimeOut_iff strerror family htimeout).1 hall
  obtain ⟨e, heq, -, -, htimedOut⟩ := hexact.fails es s' hfail
  obtain ⟨what, heq'⟩ := connectionInitialize_fails to_string hfail
  obtain ⟨what', rfl⟩ := htimedOut htimeout hne hes
  cases heq.symm.trans heq'

/-- **Connecting.** `initialize` does what it is to do with the candidates iff not all attempts made
with a timeout time out: then a `timeout_exception` is due, and a `std::runtime_error` thrown. -/
theorem connectsInOrder_iff (strerror : Nat → String) (family : A → AddressFamily)
    (to_string : A → String) (timeout : Double) (ra la : List A) (s : Sockets A) :
    ConnectsInOrder strerror family timeout (candidates family ra la) s
        (connectionInitialize strerror family to_string timeout ra la s) ↔
      ¬ (.ofInt 0 ≤ timeout ∧ candidates family ra la ≠ [] ∧
        AllTimeOut timeout (candidates family ra la) s.script) := by
  constructor
  · rintro hexact ⟨htimeout, hne, hall⟩
    exact not_connectsInOrder_of_allTimeOut strerror family to_string htimeout hne hall hexact
  · intro hnot
    constructor
    · intro failed c later es s₁ fd s' hcs hfail hattempt
      exact ⟨connectionInitialize_succeeds hcs hfail hattempt,
        (attempt_ok hattempt).trans (congrArg _ hfail.opened)⟩
    · intro es s' hfail
      obtain ⟨what, heq⟩ := connectionInitialize_fails to_string hfail
      refine ⟨_, heq, rfl, hfail.opened, fun htimeout hne hes => ?_⟩
      exact absurd ⟨htimeout, hne, (allTimeOut_iff strerror family htimeout).2 ⟨es, s', hfail, hes⟩⟩
        hnot

/-- The only attempt times out, and a `std::runtime_error` is thrown. -/
theorem timedOut_runtimeError :
    let family : Unit → AddressFamily := fun _ => .inet
    let s : Sockets Unit :=
      ⟨fun _ => 0#32, [], 0, [.ok 3, .ok 2, .ok 0, .fail EINPROGRESS, .ok 0], []⟩
    ¬ ConnectsInOrder (fun _ => "") family (.ofInt 1) (candidates family [()] []) s
      (connectionInitialize (fun _ => "") family (fun _ => "[::1]:80") (.ofInt 1) [()] [] s) := by
  intro family s
  have hms : timeoutMs (.ofInt 1) = .ok 1000 := by decide +kernel
  exact not_connectsInOrder_of_allTimeOut _ family _ (by decide +kernel) nofun
    ⟨[], ⟨1000, 3, 2, 0, 0, 0, hms, rfl⟩, trivial⟩

end run

end candidates

end Nanonet
