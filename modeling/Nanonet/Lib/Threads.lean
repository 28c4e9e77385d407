import Mathlib.Logic.Function.Basic
import Nanonet.Lib.Channel

/-!
# Threads that share channels

Each thread runs a program, which asks for one thing after the other: that an element be pushed to a
channel, for the first element of a channel, or for another thread to return. Here a request is met
in one step, as soon as it can be.
-/

namespace Nanonet

inductive ChannelCall (α : Type*) where
  | push (a : α)
  | pop

inductive Request (Tid ι α : Type*) where
  | call (x : ι) (c : ChannelCall α)
  | join (i : Tid)

/-- The code of all threads. At each place of it there is a request, or `none` where a thread has
returned, and the place where a thread goes on when it is met; a pop is met with an element. -/
structure Threads.Program (Tid ι α L : Type*) where
  request : L → Option (Request Tid ι α)
  resume : L → Option α → L

/-- The channels, and the place of every thread. -/
structure Threads (Tid ι α L : Type*) where
  channel : ι → Channel α
  pc : Tid → L

namespace Threads

variable {Tid ι α L : Type*}

section step

variable [DecidableEq Tid] [DecidableEq ι]

inductive Step (prog : Program Tid ι α L) (capacity : ι → Option Nat) :
    Threads Tid ι α L → Tid → Threads Tid ι α L → Prop where
  | push {s : Threads Tid ι α L} {i : Tid} {x : ι} {a : α} :
      prog.request (s.pc i) = some (.call x (.push a)) →
      Channel.Room (capacity x) (s.channel x) →
      Step prog capacity s i ⟨Function.update s.channel x ((s.channel x).push a),
        Function.update s.pc i (prog.resume (s.pc i) none)⟩
  | pop {s : Threads Tid ι α L} {i : Tid} {x : ι} {a : α} {ch : Channel α} :
      prog.request (s.pc i) = some (.call x .pop) → (s.channel x).pop = some (a, ch) →
      Step prog capacity s i ⟨Function.update s.channel x ch,
        Function.update s.pc i (prog.resume (s.pc i) (some a))⟩
  | join {s : Threads Tid ι α L} {i j : Tid} :
      prog.request (s.pc i) = some (.join j) → prog.request (s.pc j) = none →
      Step prog capacity s i ⟨s.channel,
        Function.update s.pc i (prog.resume (s.pc i) none)⟩

end step

/-- Empty channels, and threads at the places where they begin. -/
def start (begins : Tid → L) : Threads Tid ι α L := ⟨fun _ => ⟨[], [], []⟩, begins⟩

def lts [DecidableEq Tid] [DecidableEq ι] (prog : Program Tid ι α L) (capacity : ι → Option Nat)
    (begins : Tid → L) : Lts (Threads Tid ι α L) Tid where
  init s := s = start begins
  step := Step prog capacity

end Threads

end Nanonet
