import Nanonet.Lib.Swaps
import Nanonet.Server.AcceptLoop

/-!
# Who owns a connection and its sentry

The objects that are alive in the accept loop and in the threads, seen as one collection. A step
changes at most one of them: a sentry or a connection is made or destroyed, or an object moves, which
leaves nothing behind. `System.Effect` says this once for all steps, and two accounts follow: the
counter is the number of objects with a sentry, and a connection is open while an object holds it.
-/

namespace Nanonet.Server

namespace ConnectionThread

def empty : ConnectionThread := ⟨none, .default sentryTraits⟩

def hasSentry (f : ConnectionThread) : Bool := f.sentry.valid sentryTraits

def holds (k : Nat) (f : ConnectionThread) : Bool := f.c == some k

theorem moveConstruct_eq (f : ConnectionThread) : f.moveConstruct = (f, empty) := rfl

theorem destroy_empty (s : Shared) : empty.destroy s = s := rfl

theorem connectionsCurrent_destroySentry (f : ConnectionThread) (s : Shared) :
    (f.destroySentry s).2.connectionsCurrent = s.connectionsCurrent - f.hasSentry.toNat := by
  obtain ⟨c, ⟨h⟩⟩ := f
  cases h with
  | none => simp [destroySentry, Shared.connectionsCurrent, hasSentry, AutoResource.valid,
      AutoResource.destroy, AutoResource.dispose, incrementSentryTraits]
  | some u => simp [destroySentry, Shared.connectionsCurrent, hasSentry, AutoResource.valid,
      AutoResource.destroy, AutoResource.dispose, incrementSentryTraits, ResourceTraits.callDispose]

end ConnectionThread

open ConnectionThread

/-! ### The effect of a step -/

namespace AcceptPc

/-- The objects that are alive in the accept loop. -/
def objects : AcceptPc → List ConnectionThread
  | settingTimeout c | makingSentry c => [⟨some c, .default sentryTraits⟩]
  | constructing f | startingThread f | detaching f | unwinding f | unwindingConnection f => [f]
  | testing | accepting | sleeping | draining | waiting | complete | returned | thrown |
    callerReturned _ => []

/-- `server_thread::operator()` returned. -/
def Returned (pc : AcceptPc) : Prop := pc = returned ∨ pc = callerReturned false

/-- An exception left `server_thread::operator()`. -/
def Thrown (pc : AcceptPc) : Prop := pc = thrown ∨ pc = callerReturned true

/-- `server_thread::operator()` is over, one way or the other. -/
def Over (pc : AcceptPc) : Prop := pc.Returned ∨ pc.Thrown

/-- The last look at the counter found no connection. -/
def Drained (pc : AcceptPc) : Prop := pc = complete ∨ pc.Returned

def Stopped (pc : AcceptPc) : Prop := pc = draining ∨ pc = waiting ∨ pc.Drained

end AcceptPc

namespace System

def objects (s : System) : List ConnectionThread := s.accept.objects ++ s.threads.map Thread.f

/-- What a step does to the objects and to what they stand for. -/
inductive Effect (s s' : System) : Prop
  | keep (f : ConnectionThread) (hswaps : Swaps empty s.objects s'.objects f f)
      (hcalls : s'.shared.calls = s.shared.calls)
      (hconnections : s'.shared.connections = s.shared.connections)
      (htotal : s'.shared.connectionsTotal = s.shared.connectionsTotal)
      (hrunning : s'.shared.running = true → s.shared.running = true)
  | accepted
      (hswaps : Swaps empty s.objects s'.objects empty
        ⟨some s.shared.connections.length, .default sentryTraits⟩)
      (hshared : s'.shared =
        { s.shared with connections := s.shared.connections ++ [⟨true, false⟩] })
  | counted (k : Nat) (f : ConnectionThread) (hpc : s.accept = .settingTimeout k)
      (hswaps : Swaps empty s.objects s'.objects f f)
      (hshared : s'.shared = s.shared.countConnection k)
  | sentryMade (k : Nat) (hpc : s.accept = .makingSentry k)
      (hswaps : Swaps empty s.objects s'.objects ⟨some k, .default sentryTraits⟩ ⟨some k, ⟨some ()⟩⟩)
      (hshared : s'.shared =
        { s.shared with calls := sentryTraits.callInit (some ()) s.shared.calls })
  | sentryDestroyed (f : ConnectionThread)
      (hswaps : Swaps empty s.objects s'.objects f (f.destroySentry s.shared).1)
      (hshared : s'.shared = (f.destroySentry s.shared).2)
  | connectionDestroyed (f : ConnectionThread) (hmem : f ∈ s.objects)
      (hswaps : Swaps empty s.objects s'.objects f (f.destroyConnection s.shared).1)
      (hshared : s'.shared = (f.destroyConnection s.shared).2)

end System

end Nanonet.Server
