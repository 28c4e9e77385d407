import Nanonet.Lib.Lts
import Nanonet.Util.AutoResource

/-!
# The accept loop and its connection threads

`server_thread` and `connection_thread` of `server.cpp`. The accept loop, any number of detached
connection threads and whoever else holds the running flag take their steps in any order. A
connection is named by its position among those that were accepted. A step is what a thread does to
the shared state in one go; what a call can do besides returning is part of the label.

The sentry and the `unique_ptr` of a connection move from the accept loop to the functor of its
thread. Each object that holds them has them destroyed in the reverse order of their declaration: the
sentry first, the connection after it.
-/

namespace Nanonet.Server

/-! ### What the threads share -/

/-- A connection that was accepted. -/
structure Connection where
  /-- Its socket was not released. -/
  isOpen : Bool
  /-- It got past setting its timeout. -/
  timeoutSet : Bool
deriving DecidableEq, Repr

abbrev CountSentry := AutoResource (Option Unit)

/-- The only counter is `status.connections_current`. -/
abbrev sentryTraits := incrementSentryTraits Unit

/-- The running flag, the counters of the status, and the connections. -/
structure Shared where
  running : Bool
  calls : Calls (Option Unit) (Unit → Int)
  connectionsTotal : Nat
  connections : List Connection

namespace Shared

def connectionsCurrent (s : Shared) : Int := s.calls.state ()

def shutdown (s : Shared) : Shared := { s with running := false }

/-- The socket of a connection is released. -/
def release (s : Shared) (k : Nat) : Shared :=
  { s with connections := s.connections.modify k fun x => { x with isOpen := false } }

/-- Connection `k` got past setting its timeout: the rates are updated, which cannot fail, and it is
counted. -/
def countConnection (s : Shared) (k : Nat) : Shared :=
  { s with
    connectionsTotal := s.connectionsTotal + 1
    connections := s.connections.modify k fun x => { x with timeoutSet := true } }

end Shared

/-! ### The functor of a connection thread -/

/-- The members of a `connection_thread` that own something: `c` and `sentry`. -/
structure ConnectionThread where
  c : Option Nat
  sentry : CountSentry
deriving DecidableEq

namespace ConnectionThread

/-- The move constructor: the new object and what is left of `other`. -/
def moveConstruct (other : ConnectionThread) : ConnectionThread × ConnectionThread :=
  let sentry := other.sentry.moveConstruct sentryTraits
  (⟨other.c, sentry.1⟩, ⟨none, sentry.2⟩)

/-- `~increment_sentry()` of the member `sentry`. -/
def destroySentry (f : ConnectionThread) (s : Shared) : ConnectionThread × Shared :=
  (⟨f.c, .default sentryTraits⟩, { s with calls := f.sentry.destroy sentryTraits s.calls })

/-- `~unique_ptr()` of the member `c`, and `~connection()` of what it points to. -/
def destroyConnection (f : ConnectionThread) (s : Shared) : ConnectionThread × Shared :=
  match f.c with
  | none => (f, s)
  | some k => (⟨none, f.sentry⟩, s.release k)

def destroy (f : ConnectionThread) (s : Shared) : Shared :=
  let r := f.destroySentry s
  (r.1.destroyConnection r.2).2

end ConnectionThread

/-! ### Connection threads -/

/-- How a call ends: it returns, throws a `std::exception`, or throws a `shutdown_exception`. -/
inductive Outcome
  | returns (b : Bool)
  | throws
  | throwsShutdown
deriving DecidableEq, Repr

/-- Where a connection thread is in `operator()` and in the destructor of its functor. -/
inductive ThreadPc
  | starting
  | settingUp
  | logging
  | welcoming
  | looping
  | reading
  | handling
  | shuttingDown
  | waitingForClient
  | closing
  | returning
  | destroyingConnection
  | done
deriving DecidableEq, Repr

inductive ThreadStep
  | checkRunning
  | setUp (ok : Bool)
  | log
  | welcome (o : Outcome)
  | testRunning
  | getline (o : Outcome)
  | handle (o : Outcome)
  | shutdown
  | readByte
  | clientClosed
  | logClosing
  | destroySentry
  | destroyConnection
deriving DecidableEq, Repr

/-- The step runs the handler or the welcome function, reads or writes the server status, or touches
the running flag. -/
def ThreadStep.Touches : ThreadStep → Prop
  | checkRunning | log | welcome _ | testRunning | handle _ | shutdown | destroySentry => True
  | setUp _ | getline _ | readByte | clientClosed | logClosing | destroyConnection => False

/-- A connection thread, with its functor. -/
structure Thread where
  pc : ThreadPc
  f : ConnectionThread

/-- Where a call of the handler goes on. -/
def afterHandler : Outcome → ThreadPc
  | .returns true => .looping
  | .returns false => .closing
  | .throws => .returning
  | .throwsShutdown => .shuttingDown

/-- One step of `connection_thread::operator()` and of what the thread does after it. -/
def Thread.step (t : Thread) (s : Shared) : ThreadStep → Option (Thread × Shared)
  | .checkRunning =>
    if t.pc = .starting then
      some ({ t with pc := if s.running then .settingUp else .returning }, s)
    else none
  | .setUp ok =>
    if t.pc = .settingUp then some ({ t with pc := if ok then .logging else .returning }, s)
    else none
  | .log => if t.pc = .logging then some ({ t with pc := .welcoming }, s) else none
  | .welcome o =>
    if t.pc = .welcoming then
      match o with
      | .returns _ => some ({ t with pc := .looping }, s)
      | .throws => some ({ t with pc := .returning }, s)
      | .throwsShutdown => some ({ t with pc := .shuttingDown }, s)
    else none
  | .testRunning =>
    if t.pc = .looping then
      some ({ t with pc := if s.running then .reading else .closing }, s)
    else none
  | .getline o =>
    if t.pc = .reading then
      match o with
      | .returns true => some ({ t with pc := .handling }, s)
      | .returns false => some ({ t with pc := .closing }, s)
      | .throws => some ({ t with pc := .returning }, s)
      | .throwsShutdown => none
    else none
  | .handle o =>
    if t.pc = .handling then some ({ t with pc := afterHandler o }, s) else none
  | .shutdown =>
    if t.pc = .shuttingDown then some ({ t with pc := .waitingForClient }, s.shutdown) else none
  | .readByte =>
    -- what the client still sends is thrown away
    if t.pc = .waitingForClient then some (t, s) else none
  | .clientClosed =>
    if t.pc = .waitingForClient then some ({ t with pc := .returning }, s) else none
  | .logClosing => if t.pc = .closing then some ({ t with pc := .returning }, s) else none
  | .destroySentry =>
    if t.pc = .returning then
      let r := t.f.destroySentry s
      some (⟨.destroyingConnection, r.1⟩, r.2)
    else none
  | .destroyConnection =>
    if t.pc = .destroyingConnection then
      let r := t.f.destroyConnection s
      some (⟨.done, r.1⟩, r.2)
    else none

/-! ### The accept loop -/

/-- Where `server_thread::operator()` is, with the objects that are alive there and own something. -/
inductive AcceptPc
  | testing
  | accepting
  | settingTimeout (c : Nat)
  | makingSentry (c : Nat)
  | constructing (args : ConnectionThread)
  | startingThread (ct : ConnectionThread)
  | detaching (ct : ConnectionThread)
  | unwinding (f : ConnectionThread)
  | unwindingConnection (f : ConnectionThread)
  | sleeping
  | draining
  | waiting
  | complete
  | returned
  | thrown
  | callerReturned (caught : Bool)
deriving DecidableEq

/-- What `new connection(a, params.accept_timeout)` does. -/
inductive AcceptOutcome
  | timeout
  | error
  | accepted
deriving DecidableEq, Repr

inductive AcceptStep
  | test
  | accept (o : AcceptOutcome)
  | setTimeout (ok : Bool)
  | makeSentry
  | construct (ok : Bool)
  | startThread (ok : Bool)
  | detach
  | destroySentry
  | destroyConnection
  | sleep (ok : Bool)
  | readCount
  | leave
  | callerLeaves
deriving DecidableEq, Repr

/-- One step of `server_thread::operator()`, and of its caller after it: `run_server`, or the
destructor of `server_manager`, which joins the thread. A thread that is started is returned.

`util::sleep` throws when a signal interrupts it, and both calls of it are outside the `try` of the
loop. `run_server` catches what leaves `operator()` and tries again, or returns if it sees the flag
down; out of a thread in the background the exception ends the process. -/
def AcceptPc.step (s : Shared) : AcceptPc → AcceptStep → Option (AcceptPc × Shared × Option Thread)
  | testing, .test => some (if s.running then accepting else draining, s, none)
  | accepting, .accept .timeout => some (testing, s, none)
  | accepting, .accept .error => some (sleeping, s, none)
  | accepting, .accept .accepted =>
    some (settingTimeout s.connections.length,
      { s with connections := s.connections ++ [⟨true, false⟩] }, none)
  | settingTimeout c, .setTimeout true => some (makingSentry c, s.countConnection c, none)
  | settingTimeout c, .setTimeout false =>
    some (unwindingConnection ⟨some c, .default sentryTraits⟩, s, none)
  | makingSentry c, .makeSentry =>
    let made := AutoResource.construct sentryTraits (some ()) s.calls
    some (constructing ⟨some c, made.1⟩, { s with calls := made.2 }, none)
  | constructing args, .construct ok =>
    -- the parameters of the constructor die behind it, whether or not it throws
    let made := args.moveConstruct
    some (if ok then startingThread made.1 else unwinding made.1, made.2.destroy s, none)
  | startingThread ct, .startThread true =>
    let made := ct.moveConstruct
    some (detaching made.2, s, some ⟨.starting, made.1⟩)
  | startingThread ct, .startThread false =>
    let made := ct.moveConstruct
    some (unwinding made.1, made.2.destroy s, none)
  | detaching ct, .detach => some (testing, ct.destroy s, none)
  | unwinding f, .destroySentry =>
    let r := f.destroySentry s
    some (unwindingConnection r.1, r.2, none)
  | unwindingConnection f, .destroyConnection => some (sleeping, (f.destroyConnection s).2, none)
  | sleeping, .sleep true => some (testing, s, none)
  | sleeping, .sleep false => some (thrown, s, none)
  | draining, .readCount =>
    some (if s.connectionsCurrent = 0 then complete else waiting, s, none)
  | waiting, .sleep true => some (draining, s, none)
  | waiting, .sleep false => some (thrown, s, none)
  | complete, .leave => some (returned, s, none)
  | returned, .callerLeaves => some (callerReturned false, s, none)
  | thrown, .callerLeaves => some (if s.running then thrown else callerReturned true, s, none)
  | _, _ => none

/-! ### The server -/

structure System where
  accept : AcceptPc
  shared : Shared
  threads : List Thread

inductive Label
  | accept (a : AcceptStep)
  | thread (i : Nat) (a : ThreadStep)
  /-- `shutdown()` from outside. -/
  | shutdown
deriving DecidableEq, Repr

namespace System

def start : System := ⟨.testing, ⟨true, ⟨fun _ => 0, [], []⟩, 0, []⟩, []⟩

def step (s : System) : Label → Option System
  | .accept a => (s.accept.step s.shared a).map fun r => ⟨r.1, r.2.1, s.threads ++ r.2.2.toList⟩
  | .thread i a =>
    s.threads[i]?.bind fun t => (t.step s.shared a).map fun r =>
      ⟨s.accept, r.2, s.threads.set i r.1⟩
  | .shutdown => some { s with shared := s.shared.shutdown }

def lts : Lts System Label where
  init s := s = start
  step s l s' := s.step l = some s'

end System

end Nanonet.Server
