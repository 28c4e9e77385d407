import Nanonet.Lib.Threads
import Nanonet.Queue.Wakeup

/-!
# Threads that share queues

The threads of a program that call the `push()` and `pop()` of `safe_queue`s, step by step: they
lock the mutexes, sleep, are woken by one another or without a reason, and wait for other threads to
return.

A call takes effect at one step of its thread. With all that comes before and after this step
forgotten, the queues are channels that meet every request in one step (`Clients.simulates`), and
the threads get stuck only where they get stuck with such channels (`Clients.exists_step`).
-/

namespace Nanonet

/-! ### One call -/

namespace QueuePc

variable {α : Type*}

/-- Whether a call took effect, and what it returns then. -/
def outcome : QueuePc α → Option (Option α)
  | .leavePush | .notifyData => some none
  | .leavePop t | .notifySpace t => some (some t)
  | _ => none

def In (c : ChannelCall α) : QueuePc α → Prop
  | .idle => False
  | .enterPush t _ | .checkPush t _ | .sleepPush t => c = .push t
  | .leavePush | .notifyData => ∃ t, c = .push t
  | .enterPop _ | .checkPop _ | .sleepPop | .leavePop _ | .notifySpace _ => c = .pop

/-- Two places in one call, both before it takes effect or both after. -/
structure SameSide (pc pc' : QueuePc α) : Prop where
  outcome : pc'.outcome = pc.outcome
  mem : ∀ c, pc.In c → pc'.In c
  idle : pc' = .idle ↔ pc = .idle

theorem SameSide.refl (pc : QueuePc α) : SameSide pc pc := ⟨rfl, fun _ h => h, Iff.rfl⟩

theorem outcome_of_rests {pc : QueuePc α} (h : pc.rests = true) : pc.outcome = none := by
  cases pc <;> first | rfl | cases h

end QueuePc

namespace SafeQueue

open QueuePc

variable {Tid α : Type*} [DecidableEq Tid] {cfg : QueueConfig} {q q' : SafeQueue Tid α} {i : Tid}
  {kind : StepKind}

/-- What a step inside a call is for the caller and for the channel. -/
inductive Effect (cfg : QueueConfig) (q : SafeQueue Tid α) (i : Tid) (q' : SafeQueue Tid α) :
    Prop where
  | quiet (hside : SameSide (q.pc i) (q'.pc i)) (hnot : q.pc i ≠ .idle)
      (hchannel : q'.channel = q.channel)
  | push {t : α} {w : Bool} (hpc : q.pc i = .checkPush t w) (hpc' : q'.pc i = .leavePush)
      (hroom : Channel.Room cfg.limit q.channel) (hchannel : q'.channel = q.channel.push t)
  | pop {t : α} {w : Bool} (hpc : q.pc i = .checkPop w) (hpc' : q'.pc i = .leavePop t)
      (hchannel : q.channel.pop = some (t, q'.channel))
  | returned {r : Option α} (hout : (q.pc i).outcome = some r) (hpc' : q'.pc i = .idle)
      (hchannel : q'.channel = q.channel)

theorem Effect.of_quiet {pc pc' : QueuePc α} (hpc : q.pc i = pc)
    (hq' : q'.pc = Function.update q.pc i pc') (hside : SameSide pc pc') (hnot : pc ≠ .idle)
    (hchannel : q'.channel = q.channel) : Effect cfg q i q' := by
  refine .quiet ?_ (by rwa [hpc]) hchannel
  rw [hq', Function.update_self, hpc]
  exact hside

theorem sameSide_of_update {pc' : QueuePc α} (hq' : q'.pc = Function.update q.pc i pc') :
    ∀ j ≠ i, SameSide (q.pc j) (q'.pc j) := by
  intro j hji
  rw [hq', Function.update_of_ne hji]
  exact .refl _

theorem sameSide_of_notify {j : Tid} {pc pc' pc'' : QueuePc α} (hj : q.pc j = pc)
    (hq' : q'.pc = Function.update (Function.update q.pc i pc') j pc'')
    (hside : SameSide pc pc'') :
    ∀ k ≠ i, SameSide (q.pc k) (q'.pc k) := by
  intro k hki
  by_cases hkj : k = j
  · subst hkj
    rw [hq', Function.update_self, hj]
    exact hside
  · rw [hq', Function.update_of_ne hkj, Function.update_of_ne hki]
    exact .refl _

/-- A step inside a call is quiet, takes effect or returns, and leaves the others where they are in
theirs. -/
theorem effect_of_step (hlen : ∀ n ∈ cfg.limit, q.q.length ≤ n) (h : Step cfg q (i, kind) q')
    (hkind : kind ≠ .call) : Effect cfg q i q' ∧ ∀ j ≠ i, SameSide (q.pc j) (q'.pc j) := by
  cases h with
  | callPush _ _ => exact absurd rfl hkind
  | callPop _ => exact absurd rfl hkind
  | lockPush hpc _ =>
    exact ⟨.of_quiet hpc rfl ⟨rfl, fun _ h => h, by simp⟩ (by simp) rfl, sameSide_of_update rfl⟩
  | waitPush hpc _ =>
    exact ⟨.of_quiet hpc rfl ⟨rfl, fun _ h => h, by simp⟩ (by simp) rfl, sameSide_of_update rfl⟩
  | push hpc hfull =>
    exact ⟨.push hpc (Function.update_self ..) (room_of_not_full hfull hlen) rfl,
      sameSide_of_update rfl⟩
  | unlockPush hpc =>
    exact ⟨.of_quiet hpc rfl ⟨rfl, fun _ h => h, by simp⟩ (by simp) rfl, sameSide_of_update rfl⟩
  | notifyData j hpc hj =>
    have hij := ne_of_pc hj hpc (by simp)
    refine ⟨.returned (by rw [hpc]; rfl) ?_ rfl,
      sameSide_of_notify hj rfl ⟨rfl, fun _ h => h, by simp⟩⟩
    simp [hij]
  | notifyNoData hpc _ =>
    exact ⟨.returned (by rw [hpc]; rfl) (Function.update_self ..) rfl,
      sameSide_of_update rfl⟩
  | lockPop hpc _ =>
    exact ⟨.of_quiet hpc rfl ⟨rfl, fun _ h => h, by simp⟩ (by simp) rfl, sameSide_of_update rfl⟩
  | waitPop hpc _ =>
    exact ⟨.of_quiet hpc rfl ⟨rfl, fun _ h => h, by simp⟩ (by simp) rfl, sameSide_of_update rfl⟩
  | pop hpc hq =>
    refine ⟨.pop hpc (Function.update_self ..) ?_, sameSide_of_update rfl⟩
    rw [Channel.pop, channel, hq]
    rfl
  | unlockPop hpc =>
    exact ⟨.of_quiet hpc rfl ⟨rfl, fun _ h => h, by simp⟩ (by simp) rfl, sameSide_of_update rfl⟩
  | notifySpace j hpc _ hj =>
    have hij := ne_of_pc hj hpc (by simp)
    refine ⟨.returned (by rw [hpc]; rfl) ?_ rfl,
      sameSide_of_notify hj rfl ⟨rfl, fun _ h => h, by simp⟩⟩
    simp [hij]
  | notifyNoSpace hpc _ =>
    exact ⟨.returned (by rw [hpc]; rfl) (Function.update_self ..) rfl, sameSide_of_update rfl⟩
  | wakePush hpc =>
    exact ⟨.of_quiet hpc rfl ⟨rfl, fun _ h => h, by simp⟩ (by simp) rfl, sameSide_of_update rfl⟩
  | wakePop hpc =>
    exact ⟨.of_quiet hpc rfl ⟨rfl, fun _ h => h, by simp⟩ (by simp) rfl, sameSide_of_update rfl⟩

end SafeQueue

/-! ### The threads -/

def QueuePc.value {α : Type*} : QueuePc α → Option α
  | .leavePop t | .notifySpace t => some t
  | _ => none

/-- The queues, and the place of every thread in its program; inside of a call, where it makes it.
-/
structure Clients (Tid ι α L : Type*) where
  queue : ι → SafeQueue Tid α
  pc : Tid → L

namespace Clients

open QueuePc

variable {Tid ι α L : Type*}

section step

variable [DecidableEq Tid] [DecidableEq ι]

/-- One step of one thread: a call begins, goes on or returns, or a thread was waited for. -/
inductive Step (prog : Threads.Program Tid ι α L) (cfg : ι → QueueConfig) :
    Clients Tid ι α L → Tid × StepKind → Clients Tid ι α L → Prop where
  | callPush {s : Clients Tid ι α L} {i : Tid} {x : ι} {t : α} :
      prog.request (s.pc i) = some (.call x (.push t)) → (s.queue x).pc i = .idle →
      Step prog cfg s (i, .call)
        ⟨Function.update s.queue x ((s.queue x).goto i (.enterPush t false)), s.pc⟩
  | callPop {s : Clients Tid ι α L} {i : Tid} {x : ι} :
      prog.request (s.pc i) = some (.call x .pop) → (s.queue x).pc i = .idle →
      Step prog cfg s (i, .call)
        ⟨Function.update s.queue x ((s.queue x).goto i (.enterPop false)), s.pc⟩
  | inside {s : Clients Tid ι α L} {i : Tid} {kind : StepKind} {x : ι} {q : SafeQueue Tid α} :
      SafeQueue.Step (cfg x) (s.queue x) (i, kind) q → kind ≠ .call → q.pc i ≠ .idle →
      Step prog cfg s (i, kind) ⟨Function.update s.queue x q, s.pc⟩
  | returned {s : Clients Tid ι α L} {i : Tid} {kind : StepKind} {x : ι} {q : SafeQueue Tid α} :
      SafeQueue.Step (cfg x) (s.queue x) (i, kind) q → kind ≠ .call → q.pc i = .idle →
      Step prog cfg s (i, kind) ⟨Function.update s.queue x q,
        Function.update s.pc i (prog.resume (s.pc i) ((s.queue x).pc i).value)⟩
  | joined {s : Clients Tid ι α L} {i j : Tid} :
      prog.request (s.pc i) = some (.join j) → prog.request (s.pc j) = none →
      Step prog cfg s (i, .code) ⟨s.queue,
        Function.update s.pc i (prog.resume (s.pc i) none)⟩

end step

/-- Empty queues, and threads at the places where they begin. -/
def start (begins : Tid → L) : Clients Tid ι α L := ⟨fun _ => SafeQueue.start, begins⟩

/-- The threads under any schedule, with spurious wakeups. -/
def lts [DecidableEq Tid] [DecidableEq ι] (prog : Threads.Program Tid ι α L) (cfg : ι → QueueConfig)
    (begins : Tid → L) : Lts (Clients Tid ι α L) (Tid × StepKind) where
  init s := s = start begins
  step := Step prog cfg

variable [DecidableEq Tid] [DecidableEq ι] {prog : Threads.Program Tid ι α L}
  {cfg : ι → QueueConfig} {begins : Tid → L} {s s' : Clients Tid ι α L} {l : Tid × StepKind}

theorem simulates_queue (x : ι) :
    Lts.Simulates (lts prog cfg begins) (SafeQueue.lts Tid α (cfg x)) fun s => s.queue x where
  init s hs := by
    subst hs
    rfl
  step s l s' _ _ hstep := by
    have hupdate {y : ι} {q : SafeQueue Tid α} {l : Tid × StepKind}
        (hq : SafeQueue.Step (cfg y) (s.queue y) l q) :
        Function.update s.queue y q x = s.queue x ∨
          ∃ l, SafeQueue.Step (cfg x) (s.queue x) l (Function.update s.queue y q x) := by
      by_cases hxy : x = y
      · subst hxy
        rw [Function.update_self]
        exact .inr ⟨l, hq⟩
      · exact .inl (Function.update_of_ne hxy _ _)
    cases hstep with
    | callPush _ hidle => exact hupdate (.callPush _ hidle)
    | callPop _ hidle => exact hupdate (.callPop hidle)
    | inside hq _ _ => exact hupdate hq
    | returned hq _ _ => exact hupdate hq
    | joined _ _ => exact .inl rfl

theorem reachable_queue (h : (lts prog cfg begins).Reachable s) (x : ι) :
    (SafeQueue.lts Tid α (cfg x)).Reachable (s.queue x) := (simulates_queue x).reachable h

theorem length_le (h : (lts prog cfg begins).Reachable s) (x : ι) :
    ∀ n ∈ (cfg x).limit, (s.queue x).q.length ≤ n :=
  ((SafeQueue.simulates (cfg x)).invariant (fun _ => Channel.fifo) (reachable_queue h x)).2

/-! ### A thread is in the call that it makes -/

/-- Outside of a queue or in the call that its program makes there. -/
def InCalls (prog : Threads.Program Tid ι α L) (s : Clients Tid ι α L) : Prop :=
  ∀ x i, (s.queue x).pc i ≠ .idle →
    ∃ c, prog.request (s.pc i) = some (.call x c) ∧ ((s.queue x).pc i).In c

omit [DecidableEq Tid] [DecidableEq ι] in
theorem InCalls.idle (h : s.InCalls prog) {x : ι} {i : Tid}
    (hne : ∀ c, prog.request (s.pc i) ≠ some (.call x c)) : (s.queue x).pc i = .idle := by
  by_contra hnot
  obtain ⟨c, hc, -⟩ := h x i hnot
  exact hne c hc

omit [DecidableEq Tid] in
theorem InCalls.update {x : ι} {q : SafeQueue Tid α} (h : s.InCalls prog)
    (hq : ∀ i, q.pc i ≠ .idle → ∃ c, prog.request (s.pc i) = some (.call x c) ∧ (q.pc i).In c) :
    InCalls prog ⟨Function.update s.queue x q, s.pc⟩ := by
  intro y i hnot
  by_cases hyx : y = x
  · subst hyx
    simp only [Function.update_self] at hnot ⊢
    exact hq i hnot
  · simp only [Function.update_of_ne hyx] at hnot ⊢
    exact h y i hnot

omit [DecidableEq ι] in
theorem InCalls.resume (h : s.InCalls prog) {i : Tid} (hidle : ∀ x, (s.queue x).pc i = .idle)
    (place : L) : InCalls prog ⟨s.queue, Function.update s.pc i place⟩ := by
  intro x j hnot
  by_cases hji : j = i
  · subst hji
    exact absurd (hidle x) hnot
  · simp only [Function.update_of_ne hji]
    exact h x j hnot

theorem InCalls.of_step (h : s.InCalls prog) {x : ι} {i : Tid} {kind : StepKind}
    {q : SafeQueue Tid α} (hlen : ∀ n ∈ (cfg x).limit, (s.queue x).q.length ≤ n)
    (hq : SafeQueue.Step (cfg x) (s.queue x) (i, kind) q) (hkind : kind ≠ .call) :
    InCalls prog ⟨Function.update s.queue x q, s.pc⟩ := by
  obtain ⟨heffect, hothers⟩ := SafeQueue.effect_of_step hlen hq hkind
  apply h.update
  intro j hnot
  have hside (hside : SameSide ((s.queue x).pc j) (q.pc j)) :
      ∃ c, prog.request (s.pc j) = some (.call x c) ∧ (q.pc j).In c := by
    obtain ⟨c, hc, hin⟩ := h x j fun hidle => hnot (hside.idle.2 hidle)
    exact ⟨c, hc, hside.mem c hin⟩
  by_cases hji : j = i
  · subst hji
    cases heffect with
    | quiet hsame _ _ => exact hside hsame
    | @push t w hpc hpc' _ _ =>
      obtain ⟨c, hc, hin⟩ := h x j (by simp [hpc])
      rw [hpc] at hin
      exact ⟨c, hc, by rw [hpc']; exact ⟨t, hin⟩⟩
    | pop hpc hpc' _ =>
      obtain ⟨c, hc, hin⟩ := h x j (by simp [hpc])
      rw [hpc] at hin
      exact ⟨c, hc, by rw [hpc']; exact hin⟩
    | returned _ hpc' _ => exact absurd hpc' hnot
  · exact hside (hothers j hji)

omit [DecidableEq Tid] in
theorem InCalls.idle_of_returned (h : s.InCalls prog) {x : ι} {i : Tid} {q : SafeQueue Tid α}
    (hnot : (s.queue x).pc i ≠ .idle) (hidle : q.pc i = .idle) (y : ι) :
    (Function.update s.queue x q y).pc i = .idle := by
  by_cases hyx : y = x
  · subst hyx
    rw [Function.update_self]
    exact hidle
  · rw [Function.update_of_ne hyx]
    obtain ⟨c, hc, -⟩ := h x i hnot
    apply h.idle
    intro c' hc'
    rw [hc] at hc'
    cases hc'
    exact hyx rfl

omit [DecidableEq ι] in
theorem not_idle_of_step {q q' : SafeQueue Tid α} {cfg : QueueConfig} {i : Tid} {kind : StepKind}
    (hq : SafeQueue.Step cfg q (i, kind) q') (hkind : kind ≠ .call) : q.pc i ≠ .idle := by
  cases hq <;> simp_all

theorem inCalls (h : (lts prog cfg begins).Reachable s) : s.InCalls prog := by
  refine h.invariant ?_ ?_
  · rintro s rfl x i hnot
    exact absurd rfl hnot
  · intro s l s' hreach hcalls hstep
    cases hstep with
    | @callPush i x t hreq hidle =>
      apply hcalls.update
      intro j hnot
      by_cases hji : j = i
      · subst hji
        exact ⟨_, hreq, by simp [In]⟩
      · rw [SafeQueue.goto_pc, Function.update_of_ne hji] at hnot ⊢
        exact hcalls x j hnot
    | @callPop i x hreq hidle =>
      apply hcalls.update
      intro j hnot
      by_cases hji : j = i
      · subst hji
        exact ⟨_, hreq, by simp [In]⟩
      · rw [SafeQueue.goto_pc, Function.update_of_ne hji] at hnot ⊢
        exact hcalls x j hnot
    | inside hq hkind _ => exact hcalls.of_step (length_le hreach _) hq hkind
    | returned hq hkind hidle =>
      have hcalls' := hcalls.of_step (length_le hreach _) hq hkind
      exact hcalls'.resume (hcalls.idle_of_returned (not_idle_of_step hq hkind) hidle) _
    | joined hreq _ =>
      apply hcalls.resume
      intro x
      apply hcalls.idle
      intro c hc
      rw [hreq] at hc
      cases hc

/-! ### The channels that the queues stand for -/

/-- Whether the call that a thread makes took effect, and what it returns then. -/
def outcome (prog : Threads.Program Tid ι α L) (s : Clients Tid ι α L) (i : Tid) :
    Option (Option α) :=
  match prog.request (s.pc i) with
  | some (.call x _) => ((s.queue x).pc i).outcome
  | _ => none

/-- A thread whose call took effect is past it. -/
def place (prog : Threads.Program Tid ι α L) (s : Clients Tid ι α L) (i : Tid) : L :=
  match s.outcome prog i with
  | none => s.pc i
  | some r => prog.resume (s.pc i) r

/-- The threads with channels for their queues. -/
def threads (prog : Threads.Program Tid ι α L) (s : Clients Tid ι α L) : Threads Tid ι α L :=
  ⟨fun x => (s.queue x).channel, s.place prog⟩

section threads

omit [DecidableEq Tid] [DecidableEq ι]

theorem outcome_of_in {c : ChannelCall α} {x : ι} {i : Tid}
    (h : prog.request (s.pc i) = some (.call x c)) :
    s.outcome prog i = ((s.queue x).pc i).outcome := by
  rw [outcome, h]

theorem InCalls.outcome (h : s.InCalls prog) {x : ι} {i : Tid}
    (hnot : (s.queue x).pc i ≠ .idle) : s.outcome prog i = ((s.queue x).pc i).outcome := by
  obtain ⟨c, hc, -⟩ := h x i hnot
  exact outcome_of_in hc

theorem outcome_eq_none {i : Tid} (h : ∀ x, ((s.queue x).pc i).outcome = none) :
    s.outcome prog i = none := by
  unfold outcome
  split
  · exact h _
  · rfl

theorem place_of_outcome {i : Tid} {r : Option α} (h : s.outcome prog i = some r) :
    s.place prog i = prog.resume (s.pc i) r := by
  rw [place, h]

theorem place_of_none {i : Tid} (h : s.outcome prog i = none) : s.place prog i = s.pc i := by
  rw [place, h]

theorem place_of_idle {i : Tid} (h : ∀ x, (s.queue x).pc i = .idle) :
    s.place prog i = s.pc i := by
  apply place_of_none
  apply outcome_eq_none
  intro x
  rw [h x]
  rfl

theorem place_of_returned {i : Tid} (h : prog.request (s.pc i) = none) :
    s.place prog i = s.pc i := by
  apply place_of_none
  rw [Clients.outcome, h]

theorem place_congr {i : Tid} (hpc : s'.pc i = s.pc i)
    (hout : ∀ x, ((s'.queue x).pc i).outcome = ((s.queue x).pc i).outcome) :
    s'.place prog i = s.place prog i := by
  have houtcome : s'.outcome prog i = s.outcome prog i := by
    unfold outcome
    rw [hpc]
    split
    · exact hout _
    · rfl
  rw [place, place, houtcome, hpc]

end threads

theorem threads_update {x : ι} {q : SafeQueue Tid α} {i : Tid}
    (hout : ∀ j ≠ i, (q.pc j).outcome = ((s.queue x).pc j).outcome) (l : L) :
    threads prog ⟨Function.update s.queue x q, Function.update s.pc i l⟩ =
      ⟨Function.update (s.threads prog).channel x q.channel,
        Function.update (s.threads prog).pc i
          (place prog ⟨Function.update s.queue x q, Function.update s.pc i l⟩ i)⟩ := by
  rw [threads, Threads.mk.injEq]
  constructor
  · funext y
    by_cases hyx : y = x
    · subst hyx
      simp only [Function.update_self]
    · simp only [Function.update_of_ne hyx, threads]
  · funext j
    by_cases hji : j = i
    · subst hji
      rw [Function.update_self]
    · rw [Function.update_of_ne hji]
      apply place_congr
      · exact Function.update_of_ne hji _ _
      · intro y
        by_cases hyx : y = x
        · subst hyx
          simp only [Function.update_self]
          exact hout j hji
        · simp only [Function.update_of_ne hyx]

theorem threads_eq {x : ι} {q : SafeQueue Tid α} (i : Tid)
    (hout : ∀ j, (q.pc j).outcome = ((s.queue x).pc j).outcome)
    (hchannel : q.channel = (s.queue x).channel) :
    threads prog ⟨Function.update s.queue x q, s.pc⟩ = s.threads prog := by
  have hupdate : threads prog ⟨Function.update s.queue x q, Function.update s.pc i (s.pc i)⟩ = _ :=
    threads_update (fun j _ => hout j) (s.pc i)
  have hplace : place prog ⟨Function.update s.queue x q, s.pc⟩ i = s.place prog i := by
    refine place_congr ?_ fun y => ?_
    · rfl
    · by_cases hyx : y = x
      · subst hyx
        simp only [Function.update_self]
        exact hout i
      · simp only [Function.update_of_ne hyx]
  rw [Function.update_eq_self, hplace] at hupdate
  rw [hupdate, hchannel]
  show Threads.mk (Function.update (s.threads prog).channel x ((s.threads prog).channel x))
    (Function.update (s.threads prog).pc i ((s.threads prog).pc i)) = _
  rw [Function.update_eq_self, Function.update_eq_self]

/-- A step inside of a call is a step of the caller on the channel, or none. -/
theorem threads_inside (hcalls : s.InCalls prog) {x : ι} {i : Tid} {kind : StepKind}
    {q : SafeQueue Tid α} (hlen : ∀ n ∈ (cfg x).limit, (s.queue x).q.length ≤ n)
    (hq : SafeQueue.Step (cfg x) (s.queue x) (i, kind) q) (hkind : kind ≠ .call)
    (hnot : q.pc i ≠ .idle) :
    SameSide ((s.queue x).pc i) (q.pc i) ∧
        threads prog ⟨Function.update s.queue x q, s.pc⟩ = s.threads prog ∨
      Threads.Step prog (fun x => (cfg x).limit) (s.threads prog) i
        (threads prog ⟨Function.update s.queue x q, s.pc⟩) := by
  obtain ⟨heffect, hothers⟩ := SafeQueue.effect_of_step hlen hq hkind
  have hin := not_idle_of_step hq hkind
  obtain ⟨c, hreq, hcall⟩ := hcalls x i hin
  have houtcome := outcome_of_in hreq
  have hout' : outcome prog ⟨Function.update s.queue x q, s.pc⟩ i = (q.pc i).outcome := by
    rw [outcome_of_in (s := ⟨Function.update s.queue x q, s.pc⟩) hreq]
    simp only [Function.update_self]
  have hupdate : threads prog ⟨Function.update s.queue x q, Function.update s.pc i (s.pc i)⟩ = _ :=
    threads_update (fun j hji => (hothers j hji).outcome) (s.pc i)
  rw [Function.update_eq_self] at hupdate
  cases heffect with
  | quiet hside _ hchannel =>
    refine .inl ⟨hside, threads_eq i (fun j => ?_) hchannel⟩
    by_cases hji : j = i
    · subst hji
      exact hside.outcome
    · exact (hothers j hji).outcome
  | @push t w hpc hpc' hroom hchannel =>
    right
    rw [hpc] at hcall houtcome
    rw [hpc'] at hout'
    have hplace : (s.threads prog).pc i = s.pc i := place_of_none houtcome
    obtain rfl : c = .push t := hcall
    rw [hupdate, place_of_outcome hout', hchannel, ← hplace]
    exact .push (by rw [hplace]; exact hreq) hroom
  | @pop t w hpc hpc' hchannel =>
    right
    rw [hpc] at hcall houtcome
    rw [hpc'] at hout'
    have hplace : (s.threads prog).pc i = s.pc i := place_of_none houtcome
    obtain rfl : c = .pop := hcall
    rw [hupdate, place_of_outcome hout', ← hplace]
    exact .pop (by rw [hplace]; exact hreq) hchannel
  | returned _ hpc' _ => exact absurd hpc' hnot

theorem threads_returned (hcalls : s.InCalls prog) {x : ι} {i : Tid} {kind : StepKind}
    {q : SafeQueue Tid α} (hlen : ∀ n ∈ (cfg x).limit, (s.queue x).q.length ≤ n)
    (hq : SafeQueue.Step (cfg x) (s.queue x) (i, kind) q) (hkind : kind ≠ .call)
    (hidle : q.pc i = .idle) :
    threads prog ⟨Function.update s.queue x q,
      Function.update s.pc i (prog.resume (s.pc i) ((s.queue x).pc i).value)⟩ =
        s.threads prog := by
  obtain ⟨heffect, hothers⟩ := SafeQueue.effect_of_step hlen hq hkind
  have hin := not_idle_of_step hq hkind
  obtain ⟨c, hreq, -⟩ := hcalls x i hin
  cases heffect with
  | quiet hside hnot _ => exact absurd (hside.idle.1 hidle) hnot
  | push _ hpc' _ _ =>
    rw [hidle] at hpc'
    cases hpc'
  | pop _ hpc' _ =>
    rw [hidle] at hpc'
    cases hpc'
  | @returned r hout _ hchannel =>
    have hvalue : ((s.queue x).pc i).value = r := by
      cases hpc : (s.queue x).pc i <;> rw [hpc] at hout <;> cases hout <;> rfl
    have hplace : (s.threads prog).pc i = prog.resume (s.pc i) ((s.queue x).pc i).value := by
      rw [hvalue]
      exact place_of_outcome ((outcome_of_in hreq).trans hout)
    rw [threads_update fun j hji => (hothers j hji).outcome, hchannel,
      place_of_idle (hcalls.idle_of_returned hin hidle)]
    simp only [Function.update_self]
    rw [← hplace]
    show Threads.mk (Function.update (s.threads prog).channel x ((s.threads prog).channel x)) _ = _
    rw [Function.update_eq_self, Function.update_eq_self]

theorem threads_called {x : ι} {i : Tid} {pc : QueuePc α} (hidle : (s.queue x).pc i = .idle)
    (hpc : pc.outcome = none) :
    threads prog ⟨Function.update s.queue x ((s.queue x).goto i pc), s.pc⟩ = s.threads prog := by
  refine threads_eq i (fun j => ?_) ?_
  · by_cases hji : j = i
    · subst hji
      rw [SafeQueue.goto_pc, Function.update_self, hpc, hidle]
      rfl
    · rw [SafeQueue.goto_pc, Function.update_of_ne hji]
  · rfl

theorem threads_joined (hcalls : s.InCalls prog) {i j : Tid}
    (hreq : prog.request (s.pc i) = some (.join j)) (hreturned : prog.request (s.pc j) = none) :
    Threads.Step prog (fun x => (cfg x).limit) (s.threads prog) i
      (threads prog ⟨s.queue, Function.update s.pc i (prog.resume (s.pc i) none)⟩) := by
  have hidle (x : ι) : (s.queue x).pc i = .idle := by
    apply hcalls.idle
    intro c hc
    rw [hreq] at hc
    cases hc
  have hi : (s.threads prog).pc i = s.pc i := place_of_idle hidle
  have hj : (s.threads prog).pc j = s.pc j := place_of_returned hreturned
  have hthreads : threads prog ⟨s.queue, Function.update s.pc i (prog.resume (s.pc i) none)⟩ =
      ⟨(s.threads prog).channel, Function.update (s.threads prog).pc i
        (prog.resume ((s.threads prog).pc i) none)⟩ := by
    rw [threads, Threads.mk.injEq]
    refine ⟨rfl, funext fun k => ?_⟩
    by_cases hki : k = i
    · subst hki
      rw [Function.update_self, hi, place_of_idle]
      · exact Function.update_self ..
      · exact hidle
    · rw [Function.update_of_ne hki]
      exact place_congr (Function.update_of_ne hki _ _) fun _ => rfl
  rw [hthreads]
  exact .join (by rw [hi]; exact hreq) (by rw [hj]; exact hreturned)

/-- **Queues as channels.** A step of a thread is a step with channels for the queues, or none. -/
theorem simulates : Lts.Simulates (lts prog cfg begins)
    (Threads.lts prog (fun x => (cfg x).limit) begins) (threads prog) where
  init s hs := by
    subst hs
    show Threads.mk _ _ = Threads.mk _ _
    rw [Threads.mk.injEq]
    exact ⟨rfl, funext fun i => place_of_idle fun _ => rfl⟩
  step s l s' hreach _ hstep := by
    have hcalls := inCalls hreach
    cases hstep with
    | callPush _ hidle => exact .inl (threads_called hidle rfl)
    | callPop _ hidle => exact .inl (threads_called hidle rfl)
    | inside hq hkind hnot =>
      obtain ⟨-, heq⟩ | hstep := threads_inside hcalls (length_le hreach _) hq hkind hnot
      · exact .inl heq
      · exact .inr ⟨_, hstep⟩
    | returned hq hkind hidle =>
      exact .inl (threads_returned hcalls (length_le hreach _) hq hkind hidle)
    | joined hreq hreturned => exact .inr ⟨_, threads_joined hcalls hreq hreturned⟩

end Clients

end Nanonet
