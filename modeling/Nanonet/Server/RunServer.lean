import Nanonet.Log.Syslogger
import Nanonet.Server.Ending
import Nanonet.Util.Timeouts

/-!
# Listening, with retries

`run_server` for a service that is not the test on standard input, and `~server_manager()`. The loop
makes an acceptor and a server until that works, the running flag is down, or the retries are used
up. What the flag is, what becomes of the acceptor and whether a signal interrupts the pause is given
for each pass by the environment; where the server runs in the foreground, a run of `System` is part
of its pass. The pause is outside the `try` block: what it throws leaves `run_server`.
-/

namespace Nanonet.Server

open Floating (literal)

/-- The parameters that `run_server` itself reads. -/
structure ServerParameters where
  service : String
  serverName : String
  nListenRetries : Int
  listenRetryTime : Double
  background : Bool

/-- What becomes of a pass of the loop. -/
inductive ListenOutcome
  /-- The acceptor, or behind it the start of the server, throws. -/
  | fails (starting : Bool) (what : String)
  /-- The server runs, in the foreground by this schedule. -/
  | serves (schedule : List Label)

/-- A pass of the loop, with the flag at its test, and whether a signal interrupts the pause behind
it. -/
structure Pass where
  running : Bool
  outcome : ListenOutcome
  interrupted : Bool

/-- Where `sl` points to. -/
inductive LogStream
  | caller
  | syslogger
deriving DecidableEq, Repr

/-- A pause counts once it is over. -/
inductive ListenEvent
  | log (level : Prio) (text : String)
  | sleep
deriving DecidableEq

/-- `server_manager`, of whose thread it is known whether it is joinable. -/
structure ServerManager where
  name : String
  logstream : LogStream
  joinable : Bool
deriving DecidableEq, Repr

/-- How `run_server` ends, with the state of a server that ran in the foreground. -/
inductive ListenResult
  | returns (manager : ServerManager) (server : Option System)
  | throws (what : String)
  | pauseThrows (e : Exn)
  | undefined

/-- The text of the exception of `sleep`. -/
def sleepInterrupted : String := "sleep: Interrupted system call"

def sleep (t : Double) (interrupted : Bool) : Evaluated Unit := do
  let _ ← sleepTime t
  if interrupted then .thrown (.runtimeError sleepInterrupted) else pure ()

/-- How the `try` block of a pass ends, if it does. -/
inductive Attempt
  | serves (server : Option System)
  | fails (starting : Bool) (what : String)
  | runs

namespace ServerParameters

variable (p : ServerParameters)

def starting : ListenEvent :=
  .log .NOTICE
    (if p.background then "Starting service in background..."
    else "Starting service in foreground and looping to accept connections until shutdown...")

/-- `log_error` in the handler of the loop -/
def failed (what : String) : ListenEvent :=
  .log .ERR ("Failed to accept connections on " ++ p.service ++ " (retrying in " ++
    String.ofList (p.listenRetryTime.printf 0 6) ++ "s)" ++ ": " ++ what)

/-- What a pass logs that fails. -/
def failure (starting : Bool) (what : String) : List ListenEvent :=
  (if starting then [p.starting] else []) ++ [p.failed what]

/-- `operator()` of the server in the foreground, by this schedule. -/
def serve (schedule : List Label) : Attempt :=
  match schedule.foldlM System.step System.start with
  | none => .runs
  | some s =>
    if s.accept = .returned then .serves (some s)
    else if s.accept = .thrown then .fails true sleepInterrupted
    else .runs

/-- The `try` block of a pass. -/
def attempt : ListenOutcome → Attempt
  | .fails starting what => .fails starting what
  | .serves schedule => if p.background then .serves none else serve schedule

end ServerParameters

/-- What `~server_manager()` logs while it waits for the thread, and where. -/
def ServerManager.destruct (m : ServerManager) : List (LogStream × ListenEvent) :=
  if m.joinable then
    [(m.logstream, .log .NOTICE ("Waiting for service shutdown confirmation: " ++ m.name)),
      (m.logstream, .log .NOTICE ("Service shutdown confirmed: " ++ m.name))]
  else []

/-! ### The pass that decides -/

namespace ServerParameters

variable (p : ServerParameters) (sl : LogStream) (passes : Nat → Pass)

/-- The pass throws, and the handler of the loop catches it. -/
def Fails (pass : Pass) : Prop := ∃ starting what, p.attempt pass.outcome = .fails starting what

/-- What happens in a pass that is followed by another one. -/
def passEvents (pass : Pass) : List ListenEvent :=
  match p.attempt pass.outcome with
  | .fails starting what => p.failure starting what ++ [.sleep]
  | _ => []

variable {p sl passes} {k fuel : Nat} {r : Int} {events : List ListenEvent}

/-- What the passes before pass `k` do. -/
def before (p : ServerParameters) (passes : Nat → Pass) (k : Nat) : List ListenEvent :=
  (List.range k).flatMap fun j => p.passEvents (passes j)

variable {given : Bool}

/-- What is known of the result when pass `k` was the last one: all retries failed with this
exception, the pause behind a failed pass threw, there is a manager of a thread in the background or
of none, or the server has run and is shut down. -/
def Ended (p : ServerParameters) (sl : LogStream) (passes : Nat → Pass) (k : Nat) :
    ListenResult → Prop
  | .throws what =>
    p.nListenRetries = k ∧ (∀ j ≤ k, (passes j).running = true) ∧
      ∃ starting, p.attempt (passes k).outcome = .fails starting what
  | .pauseThrows e =>
    (p.nListenRetries < 0 ∨ k < p.nListenRetries) ∧ (passes k).running = true ∧
      p.Fails (passes k) ∧ sleep p.listenRetryTime (passes k).interrupted = .thrown e
  | .undefined =>
    (p.nListenRetries < 0 ∨ k < p.nListenRetries) ∧ (passes k).running = true ∧
      p.Fails (passes k) ∧ sleep p.listenRetryTime (passes k).interrupted = .undefined
  | .returns m none =>
    m.logstream = sl ∧ m.joinable = (passes k).running ∧
      ((passes k).running = true →
        p.background = true ∧ ∃ schedule, (passes k).outcome = .serves schedule)
  | .returns m (some s) =>
    m.logstream = sl ∧ m.joinable = false ∧ p.background = false ∧
      System.lts.Reachable s ∧ s.accept = .returned ∧
      s.shared.running = false ∧ s.shared.connectionsCurrent = 0

theorem Ended.logstream {m : ServerManager} {server : Option System}
    (h : p.Ended sl passes k (.returns m server)) : m.logstream = sl := by
  cases server with
  | none => exact h.1
  | some s => exact h.1

end ServerParameters

open ServerParameters

end Nanonet.Server
