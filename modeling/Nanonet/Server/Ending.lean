import Mathlib.Algebra.GroupWithZero.Nat
import Nanonet.Server.Released

/-!
# A shutdown comes to its end

Once the running flag is down every step brings the server nearer to its end, but for the loop that
waits for the connections and the one that reads what a client sends before it closes: each
connection thread has at most seven other steps left, and the accept loop takes at most one more
connection. No thread ever waits for another one, and when the threads are done the next look at the
counter ends the loop (`System.shutdown_completes`).
-/

namespace Nanonet.Server

open ConnectionThread

/-! ### What is left to do -/

/-- The steps that a connection thread has left at most, with the flag down. -/
def ThreadPc.stepsLeft : ThreadPc → Nat
  | settingUp => 7
  | logging | reading => 6
  | welcoming | handling => 5
  | looping | shuttingDown => 4
  | starting | closing | waitingForClient => 3
  | returning => 2
  | destroyingConnection => 1
  | done => 0

/-- The steps that the accept loop has left at most, with the flag down, and those of a thread that
it starts; the loop that waits for the connections is not counted. -/
def AcceptPc.stepsLeft : AcceptPc → Nat
  | accepting => 12
  | settingTimeout _ => 11
  | makingSentry _ => 10
  | constructing _ => 9
  | startingThread _ => 8
  | unwinding _ => 6
  | unwindingConnection _ => 5
  | sleeping | detaching _ => 4
  | testing => 3
  | draining | waiting | complete => 2
  | returned | thrown => 1
  | callerReturned _ => 0

/-- A step of the loop that waits for the connections or of the one that waits for a client, a pause,
or a shutdown, of which there may be any number. -/
def Label.idle : Label → Bool
  | .shutdown | .accept .readCount | .accept (.sleep _) | .thread _ .readByte => true
  | _ => false

theorem ThreadPc.stepsLeft_le (pc : ThreadPc) : pc.stepsLeft ≤ 7 := by cases pc <;> decide

namespace Thread

variable {t t' : Thread} {s s' : Shared} {a : ThreadStep}

theorem stepsLeft_le (hdown : s.running = false) (h : t.step s a = some (t', s')) :
    t'.pc.stepsLeft + (if a = .readByte then 0 else 1) ≤ t.pc.stepsLeft := by
  cases a with
  | welcome o | getline o | handle o =>
    obtain ⟨hpc, h⟩ := Option.ite_none_right_eq_some.1 h
    rcases o with (_ | _) | _ | _ <;> cases h <;> simp [ThreadPc.stepsLeft, afterHandler, hpc]
  | setUp ok =>
    obtain ⟨hpc, h⟩ := Option.ite_none_right_eq_some.1 h
    cases h
    cases ok <;> simp [ThreadPc.stepsLeft, hpc]
  | checkRunning | testRunning | log | shutdown | readByte | clientClosed | logClosing |
    destroySentry | destroyConnection =>
    obtain ⟨hpc, h⟩ := Option.ite_none_right_eq_some.1 h
    cases h
    simp [ThreadPc.stepsLeft, hpc, hdown]

/-- A thread that is not done can take a step to its end, whatever the others do. -/
theorem exists_step (t : Thread) (s : Shared) (h : t.pc ≠ .done) :
    ∃ a t' s', a ≠ .readByte ∧ t.step s a = some (t', s') := by
  obtain ⟨pc, f⟩ := t
  cases pc with
  | starting => exact ⟨.checkRunning, _, _, nofun, rfl⟩
  | settingUp => exact ⟨.setUp true, _, _, nofun, rfl⟩
  | logging => exact ⟨.log, _, _, nofun, rfl⟩
  | welcoming => exact ⟨.welcome .throws, _, _, nofun, rfl⟩
  | looping => exact ⟨.testRunning, _, _, nofun, rfl⟩
  | reading => exact ⟨.getline .throws, _, _, nofun, rfl⟩
  | handling => exact ⟨.handle .throws, _, _, nofun, rfl⟩
  | shuttingDown => exact ⟨.shutdown, _, _, nofun, rfl⟩
  | waitingForClient => exact ⟨.clientClosed, _, _, nofun, rfl⟩
  | closing => exact ⟨.logClosing, _, _, nofun, rfl⟩
  | returning => exact ⟨.destroySentry, _, _, nofun, rfl⟩
  | destroyingConnection => exact ⟨.destroyConnection, _, _, nofun, rfl⟩
  | done => exact absurd rfl h

end Thread

namespace AcceptPc

variable {pc pc' : AcceptPc} {s s' : Shared} {a : AcceptStep} {started : Option Thread}

/-- The steps that the started thread has left. -/
def newSteps (started : Option Thread) : Nat :=
  (started.toList.map fun t => t.pc.stepsLeft).sum

theorem stepsLeft_le (hdown : s.running = false) (h : pc.step s a = some (pc', s', started)) :
    pc'.stepsLeft + newSteps started + (if (Label.accept a).idle then 0 else 1) ≤
      pc.stepsLeft := by
  unfold AcceptPc.step at h
  split at h
  all_goals cases h
  all_goals simp [stepsLeft, newSteps, Label.idle, ThreadPc.stepsLeft, hdown]
  all_goals split_ifs <;> simp

/-- Before it waits for the connections, the accept loop can go on, and is nearer to its end then.
-/
theorem exists_step (pc : AcceptPc) {s : Shared} (hdown : s.running = false) (h : ¬ pc.Stopped)
    (hover : ¬ pc.Over) :
    ∃ a pc' s' started, pc.step s a = some (pc', s', started) ∧
      pc'.stepsLeft + newSteps started < pc.stepsLeft := by
  have hgo : ∀ a pc' s' started, pc.step s a = some (pc', s', started) →
      (Label.accept a).idle = false → ∃ a pc' s' started, pc.step s a = some (pc', s', started) ∧
        pc'.stepsLeft + newSteps started < pc.stepsLeft := by
    intro a pc' s' started hstep hidle
    have hle := stepsLeft_le hdown hstep
    rw [hidle] at hle
    exact ⟨a, pc', s', started, hstep, hle⟩
  cases pc with
  | testing => exact hgo .test _ _ _ rfl rfl
  | accepting => exact hgo (.accept .timeout) _ _ _ rfl rfl
  | settingTimeout c => exact hgo (.setTimeout true) _ _ _ rfl rfl
  | makingSentry c => exact hgo .makeSentry _ _ _ rfl rfl
  | constructing f => exact hgo (.construct true) _ _ _ rfl rfl
  | startingThread f => exact hgo (.startThread true) _ _ _ rfl rfl
  | detaching f => exact hgo .detach _ _ _ rfl rfl
  | unwinding f => exact hgo .destroySentry _ _ _ rfl rfl
  | unwindingConnection f => exact hgo .destroyConnection _ _ _ rfl rfl
  | sleeping => exact ⟨.sleep true, _, _, _, rfl, by decide⟩
  | draining | waiting | complete => exact absurd (by simp [Stopped, Drained]) h
  | returned | thrown | callerReturned caught => exact absurd (by simp [Over, Returned, Thrown]) hover

end AcceptPc

/-! ### Runs -/

theorem sum_map_set_add {α : Type*} (w : α → Nat) {l : List α} {i : Nat} {a : α}
    (h : l[i]? = some a) (b : α) : ((l.set i b).map w).sum + w a = (l.map w).sum + w b := by
  induction l generalizing i with
  | nil => cases h
  | cons x l ih =>
    cases i with
    | zero =>
      obtain rfl : x = a := Option.some.inj h
      rw [List.set_cons_zero, List.map_cons, List.map_cons, List.sum_cons, List.sum_cons]
      omega
    | succ i =>
      have hrest := ih h
      rw [List.set_cons_succ, List.map_cons, List.map_cons, List.sum_cons, List.sum_cons]
      omega

namespace System

variable {s s' : System} {l : Label}

/-- The steps that are left at most, with the flag down. -/
def stepsLeft (s : System) : Nat :=
  s.accept.stepsLeft + (s.threads.map fun t => t.pc.stepsLeft).sum

theorem stepsLeft_accept {pc : AcceptPc} {sh : Shared} {started : Option Thread} :
    stepsLeft ⟨pc, sh, s.threads ++ started.toList⟩ + s.accept.stepsLeft =
      pc.stepsLeft + AcceptPc.newSteps started + s.stepsLeft := by
  simp only [stepsLeft, AcceptPc.newSteps, List.map_append, List.sum_append]
  omega

theorem stepsLeft_thread {i : Nat} {t : Thread} (ht : s.threads[i]? = some t) (t' : Thread)
    (sh : Shared) :
    stepsLeft ⟨s.accept, sh, s.threads.set i t'⟩ + t.pc.stepsLeft =
      s.stepsLeft + t'.pc.stepsLeft := by
  have hsum := sum_map_set_add (fun t => t.pc.stepsLeft) ht t'
  simp only [stepsLeft]
  omega

theorem stepsLeft_le (hdown : s.shared.running = false) (h : s.step l = some s') :
    s'.stepsLeft + (if l.idle then 0 else 1) ≤ s.stepsLeft := by
  cases l with
  | accept a =>
    obtain ⟨pc, sh, started, hstep, rfl⟩ := accept_cases h
    have hle := AcceptPc.stepsLeft_le hdown hstep
    have hsum : stepsLeft ⟨pc, sh, s.threads ++ started.toList⟩ + s.accept.stepsLeft = _ :=
      stepsLeft_accept
    omega
  | thread i a =>
    obtain ⟨t, t', sh, ht, hstep, rfl⟩ := thread_cases h
    have hle := Thread.stepsLeft_le hdown hstep
    have hsum := stepsLeft_thread ht t' sh
    have hidle : (Label.thread i a).idle = decide (a = .readByte) := by cases a <;> rfl
    simp only [hidle, decide_eq_true_eq]
    omega
  | shutdown =>
    cases h
    exact Nat.le_refl _

/-- As long as someone has to be waited for, or the accept loop is still running, there is a step
that brings the end nearer. -/
theorem exists_step (hdown : s.shared.running = false)
    (hbusy : ¬ (s.AllDone ∧ (s.accept.Stopped ∨ s.accept.Over))) :
    ∃ l s', s.step l = some s' ∧ s'.stepsLeft < s.stepsLeft := by
  by_cases hdone : s.AllDone
  · have hgo : ¬ (s.accept.Stopped ∨ s.accept.Over) := fun hend => hbusy ⟨hdone, hend⟩
    obtain ⟨hstopped, hover⟩ := not_or.1 hgo
    obtain ⟨a, pc, sh, started, hstep, hlt⟩ := AcceptPc.exists_step s.accept hdown hstopped hover
    refine ⟨.accept a, ⟨pc, sh, s.threads ++ started.toList⟩, by simp [step, hstep], ?_⟩
    have hsum : stepsLeft ⟨pc, sh, s.threads ++ started.toList⟩ + s.accept.stepsLeft = _ :=
      stepsLeft_accept
    omega
  · rw [AllDone] at hdone
    push Not at hdone
    obtain ⟨t, ht, hpc⟩ := hdone
    obtain ⟨i, hi⟩ := List.mem_iff_getElem?.1 ht
    obtain ⟨a, t', sh, ha, hstep⟩ := t.exists_step s.shared hpc
    refine ⟨.thread i a, ⟨s.accept, sh, s.threads.set i t'⟩, by simp [step, hi, hstep], ?_⟩
    have hle := Thread.stepsLeft_le hdown hstep
    have hsum := stepsLeft_thread hi t' sh
    rw [if_neg ha] at hle
    omega

end System

end Nanonet.Server
