import Mathlib.Data.Fintype.Card
import Mathlib.Order.WellFounded
import Nanonet.Queue.Clients

/-!
# Where threads that share queues get stuck

When no thread can go on, but for spurious wakeups, then every thread is outside of the queues or
asleep in one. A thread that sleeps in a `push()` finds its queue full then and one that sleeps in a
`pop()` finds it empty, since a wakeup is never lost; so with channels for the queues no thread can
go on either (`Clients.exists_step`). And where threads that share channels take a limited number of
steps, a limited number of steps, and three for each spurious wakeup, is all that they take when
they share queues (`Clients.length_le_effort`).
-/

namespace Nanonet

namespace SafeQueue

open QueuePc

variable {Tid α : Type*} [DecidableEq Tid] {cfg : QueueConfig} {q q' : SafeQueue Tid α}
  {l : Tid × StepKind}

theorem sleepPush_of_step (h : Step cfg q l q') {j : Tid} {t : α} (hj : q'.pc j = .sleepPush t) :
    q.pc j = .sleepPush t ∨ cfg.bounded = true := by
  cases h with
  | waitPush _ hfull => exact .inr hfull.1
  | notifySpace _ _ hbounded _ => exact .inr hbounded
  | _ =>
    simp only [goto_pc, Function.update_apply] at hj
    grind

theorem bounded_of_sleepPush (h : (lts Tid α cfg).Reachable q) {j : Tid} {t : α}
    (hj : q.pc j = .sleepPush t) : cfg.bounded = true := by
  have hinv : ∀ j t, q.pc j = .sleepPush t → cfg.bounded = true := by
    refine h.invariant (P := fun q => ∀ j t, q.pc j = .sleepPush t → cfg.bounded = true) ?_ ?_
    · rintro q rfl j t hj
      cases hj
    · intro q l q' _ hinv hstep j t hj
      obtain hsleep | hbounded := sleepPush_of_step hstep hj
      · exact hinv j t hsleep
      · exact hbounded
  exact hinv j t hj

/-! ### What a step costs -/

section effort

variable [Fintype Tid] {i j : Tid} {kind : StepKind} {pc pc' pc'' : QueuePc α}

/-- The steps that its place leaves to a thread: six more once its call took effect, and enough to
lend two of them to the thread that it wakes. -/
def placeEffort : QueuePc α → Nat
  | .sleepPush _ | .sleepPop => 0
  | .checkPush _ _ | .checkPop _ => 1
  | .enterPush _ _ | .enterPop _ => 2
  | .idle => 3
  | .notifyData | .notifySpace _ => 6
  | .leavePush | .leavePop _ => 7

def effort (q : SafeQueue Tid α) : Nat := ∑ i, placeEffort (q.pc i)

theorem effort_update (hpc : q.pc i = pc) (hq' : q'.pc = Function.update q.pc i pc') :
    q'.effort + placeEffort pc = q.effort + placeEffort pc' := by
  have hsum := sum_update placeEffort q.pc i pc'
  rw [hpc] at hsum
  rw [effort, effort, hq']
  exact hsum

theorem effort_notify (hpc : q.pc i = pc) (hj : q.pc j = pc'') (hji : j ≠ i) {pc₁ : QueuePc α}
    (hq' : q'.pc = Function.update (Function.update q.pc i pc') j pc₁) :
    q'.effort + placeEffort pc + placeEffort pc'' =
      q.effort + placeEffort pc' + placeEffort pc₁ := by
  have hfirst : (q.goto i pc').effort + _ = _ := effort_update hpc rfl
  have hj' : (q.goto i pc').pc j = pc'' := by
    rw [goto_pc, Function.update_of_ne hji]
    exact hj
  have hsecond := effort_update hj' hq'
  omega

theorem effort_le {k : Nat} (hpc : q.pc i = pc) (hq' : q'.pc = Function.update q.pc i pc')
    (hle : placeEffort pc' + 1 ≤ placeEffort pc + k) : q'.effort + 1 ≤ q.effort + k := by
  have hsum := effort_update hpc hq'
  omega

theorem effort_of_step (h : Step cfg q (i, kind) q') :
    q'.effort + 1 ≤ q.effort + (if kind = .spurious then 3 else 0) ∨
      (q.pc i).outcome = none ∧ (q'.pc i).outcome ≠ none ∧ q'.effort + 1 ≤ q.effort + 7 := by
  cases h with
  | callPush _ hpc => exact .inl (effort_le hpc rfl (by simp [placeEffort]))
  | callPop hpc => exact .inl (effort_le hpc rfl (by simp [placeEffort]))
  | lockPush hpc _ => exact .inl (effort_le hpc rfl (by simp [placeEffort]))
  | waitPush hpc _ => exact .inl (effort_le hpc rfl (by simp [placeEffort]))
  | push hpc _ =>
    refine .inr ⟨by rw [hpc]; rfl, ?_, effort_le hpc rfl (by simp [placeEffort])⟩
    simp [QueuePc.outcome]
  | unlockPush hpc => exact .inl (effort_le hpc rfl (by simp [placeEffort]))
  | notifyData j hpc hj =>
    have hsum : ((q.goto i .idle).goto j (.enterPop true)).effort + _ + _ = _ :=
      effort_notify hpc hj (ne_of_pc hpc hj (by simp)) rfl
    simp only [placeEffort] at hsum
    exact .inl (by simp only [reduceCtorEq, if_false]; omega)
  | notifyNoData hpc _ => exact .inl (effort_le hpc rfl (by simp [placeEffort]))
  | lockPop hpc _ => exact .inl (effort_le hpc rfl (by simp [placeEffort]))
  | waitPop hpc _ => exact .inl (effort_le hpc rfl (by simp [placeEffort]))
  | pop hpc _ =>
    refine .inr ⟨by rw [hpc]; rfl, ?_, effort_le hpc rfl (by simp [placeEffort])⟩
    simp [QueuePc.outcome]
  | unlockPop hpc => exact .inl (effort_le hpc rfl (by simp [placeEffort]))
  | @notifySpace _ t u j hpc _ hj =>
    have hsum : ((q.goto i .idle).goto j (.enterPush u true)).effort + _ + _ = _ :=
      effort_notify hpc hj (ne_of_pc hpc hj (by simp)) rfl
    simp only [placeEffort] at hsum
    exact .inl (by simp only [reduceCtorEq, if_false]; omega)
  | notifyNoSpace hpc _ => exact .inl (effort_le hpc rfl (by simp [placeEffort]))
  | wakePush hpc => exact .inl (effort_le hpc rfl (by simp [placeEffort]))
  | wakePop hpc => exact .inl (effort_le hpc rfl (by simp [placeEffort]))

end effort

end SafeQueue

namespace Clients

open QueuePc

variable {Tid ι α L : Type*} [DecidableEq Tid] [DecidableEq ι] {prog : Threads.Program Tid ι α L}
  {cfg : ι → QueueConfig} {begins : Tid → L} {s s' : Clients Tid ι α L} {l : Tid × StepKind}

/-! ### Some thread can go on -/

/-- Every thread is outside of the queues or asleep. -/
def Rests (s : Clients Tid ι α L) : Prop := ∀ x i, ((s.queue x).pc i).rests = true

omit [DecidableEq Tid] [DecidableEq ι] in
theorem Rests.place (h : s.Rests) (i : Tid) : (s.threads prog).pc i = s.pc i :=
  place_of_none (outcome_eq_none fun x => outcome_of_rests (h x i))

omit [DecidableEq Tid] [DecidableEq ι] in
theorem Rests.cases_push (h : s.Rests) (hcalls : s.InCalls prog) {x : ι} {i : Tid} {t : α}
    (hreq : prog.request (s.pc i) = some (.call x (.push t))) :
    (s.queue x).pc i = .idle ∨ (s.queue x).pc i = .sleepPush t := by
  have hrest := h x i
  have hin := hcalls x i
  rw [hreq] at hin
  cases hpc : (s.queue x).pc i <;> rw [hpc] at hrest hin <;> simp_all [In, rests]

omit [DecidableEq Tid] [DecidableEq ι] in
theorem Rests.cases_pop (h : s.Rests) (hcalls : s.InCalls prog) {x : ι} {i : Tid}
    (hreq : prog.request (s.pc i) = some (.call x .pop)) :
    (s.queue x).pc i = .idle ∨ (s.queue x).pc i = .sleepPop := by
  have hrest := h x i
  have hin := hcalls x i
  rw [hreq] at hin
  cases hpc : (s.queue x).pc i <;> rw [hpc] at hrest hin <;> simp_all [In, rests]

theorem exists_step_of_not_rests (h : (lts prog cfg begins).Reachable s) (hnot : ¬ s.Rests) :
    ∃ l s', l.2 ≠ .spurious ∧ Step prog cfg s l s' := by
  unfold Rests at hnot
  push Not at hnot
  obtain ⟨x, i, hi⟩ := hnot
  obtain ⟨j, q, hq⟩ : ∃ j q, SafeQueue.Step (cfg x) (s.queue x) (j, .code) q :=
    SafeQueue.exists_step (SafeQueue.ownerInv (reachable_queue h x)) (Bool.eq_false_iff.2 hi)
  by_cases hidle : q.pc j = .idle
  · exact ⟨_, _, by simp, .returned hq (by simp) hidle⟩
  · exact ⟨_, _, by simp, .inside hq (by simp) hidle⟩

variable [Fintype Tid]

theorem Rests.no_sleepPush (hrests : s.Rests) (h : (lts prog cfg begins).Reachable s) {x : ι}
    {i : Tid} {t : α} (hroom : Channel.Room (cfg x).limit (s.queue x).channel) :
    (s.queue x).pc i ≠ .sleepPush t := by
  intro hsleep
  have hqueue := reachable_queue h x
  have hbounded := SafeQueue.bounded_of_sleepPush hqueue hsleep
  have hlt : (s.queue x).q.length < (cfg x).capacity :=
    hroom _ (by simp [QueueConfig.limit, hbounded])
  have hcovered := (SafeQueue.spaceInv hbounded hqueue).exists (i := i)
    (Nat.sub_pos_of_lt hlt) (by rw [hsleep]; rfl)
  rcases hcovered with ⟨j, hj⟩ | ⟨j, hj⟩ <;>
    cases hpc : (s.queue x).pc j <;> have hrest := hrests x j <;>
    simp [hpc, spaceWaiters, rests] at hj hrest

theorem Rests.no_sleepPop (hrests : s.Rests) (h : (lts prog cfg begins).Reachable s) {x : ι}
    {i : Tid} (hq : (s.queue x).q ≠ []) : (s.queue x).pc i ≠ .sleepPop := by
  intro hsleep
  have hcovered := (SafeQueue.dataInv (reachable_queue h x)).exists (i := i)
    (List.length_pos_iff.2 hq) (by rw [hsleep]; rfl)
  rcases hcovered with ⟨j, hj⟩ | ⟨j, hj⟩ <;>
    cases hpc : (s.queue x).pc j <;> have hrest := hrests x j <;>
    simp [hpc, dataWaiters, rests] at hj hrest

/-- **No deadlock of its own.** Where a thread could go on with channels for the queues, some thread
can go on. -/
theorem exists_step (h : (lts prog cfg begins).Reachable s) {i : Tid} {t : Threads Tid ι α L}
    (hstep : Threads.Step prog (fun x => (cfg x).limit) (s.threads prog) i t) :
    ∃ l s', l.2 ≠ .spurious ∧ Step prog cfg s l s' := by
  by_cases hrests : s.Rests
  · have hcalls := inCalls h
    have hplace (i : Tid) : (s.threads prog).pc i = s.pc i := hrests.place i
    cases hstep with
    | push hreq hroom =>
      rw [hplace] at hreq
      obtain hidle | hsleep := hrests.cases_push hcalls hreq
      · exact ⟨_, _, by simp, .callPush hreq hidle⟩
      · exact absurd hsleep (hrests.no_sleepPush h hroom)
    | pop hreq hpop =>
      rw [hplace] at hreq
      obtain ⟨content, hcontent, -⟩ := Channel.pop_eq_some hpop
      obtain hidle | hsleep := hrests.cases_pop hcalls hreq
      · exact ⟨_, _, by simp, .callPop hreq hidle⟩
      · refine absurd hsleep (hrests.no_sleepPop h ?_)
        rw [show (s.queue _).q = _ from hcontent]
        exact List.cons_ne_nil _ _
    | join hreq hreturned =>
      rw [hplace] at hreq hreturned
      exact ⟨_, _, by simp, .joined hreq hreturned⟩
  · exact exists_step_of_not_rests h hrests

theorem stuck (h : (lts prog cfg begins).Reachable s)
    (hstuck : ∀ l s', l.2 ≠ .spurious → ¬ Step prog cfg s l s') :
    s.Rests ∧ (s.threads prog).pc = s.pc ∧
      ∀ i t, ¬ Threads.Step prog (fun x => (cfg x).limit) (s.threads prog) i t := by
  have hrests : s.Rests := by
    by_contra hnot
    obtain ⟨l, s', hl, hstep⟩ := exists_step_of_not_rests h hnot
    exact hstuck l s' hl hstep
  refine ⟨hrests, funext hrests.place, fun i t hstep => ?_⟩
  obtain ⟨l, s', hl, hstep⟩ := exists_step h hstep
  exact hstuck l s' hl hstep

/-! ### No more than a limited number of steps -/

section effort

variable [Fintype ι] {μ : Threads Tid ι α L → Nat}

/-- The steps that are left where the threads take at most `μ` steps with channels. -/
def effort (prog : Threads.Program Tid ι α L) (μ : Threads Tid ι α L → Nat)
    (s : Clients Tid ι α L) : Nat :=
  7 * μ (s.threads prog) + ∑ x, (s.queue x).effort

omit [DecidableEq Tid] in
theorem effort_le {x : ι} {q : SafeQueue Tid α} {place : Tid → L} {k : Nat}
    (h : 7 * μ (threads prog ⟨Function.update s.queue x q, place⟩) + q.effort + 1 ≤
      7 * μ (s.threads prog) + (s.queue x).effort + k) :
    effort prog μ ⟨Function.update s.queue x q, place⟩ + 1 ≤ effort prog μ s + k := by
  have hsum := sum_update SafeQueue.effort s.queue x q
  simp only [effort]
  omega

theorem effort_of_step
    (hμ : ∀ t i t', (Threads.lts prog (fun x => (cfg x).limit) begins).Reachable t →
      Threads.Step prog (fun x => (cfg x).limit) t i t' → μ t' + 1 ≤ μ t)
    (h : (lts prog cfg begins).Reachable s) {i : Tid} {kind : StepKind}
    (hstep : Step prog cfg s (i, kind) s') :
    effort prog μ s' + 1 ≤ effort prog μ s + if kind = .spurious then 3 else 0 := by
  have hcalls := inCalls h
  have hthreads := simulates.reachable h
  cases hstep with
  | @callPush _ x t _ hidle =>
    apply effort_le
    rw [threads_called hidle rfl]
    have hle : ((s.queue x).goto i (.enterPush t false)).effort + 1 ≤ (s.queue x).effort + 0 :=
      SafeQueue.effort_le hidle rfl (Nat.le_refl _)
    omega
  | @callPop _ x _ hidle =>
    apply effort_le
    rw [threads_called hidle rfl]
    have hle : ((s.queue x).goto i (.enterPop false)).effort + 1 ≤ (s.queue x).effort + 0 :=
      SafeQueue.effort_le hidle rfl (Nat.le_refl _)
    omega
  | @inside _ _ x q hq hkind hnot =>
    apply effort_le
    obtain hle | ⟨hbefore, hafter, hle⟩ := SafeQueue.effort_of_step hq
    · obtain ⟨-, heq⟩ | hthread := threads_inside hcalls (length_le h x) hq hkind hnot
      · rw [heq]
        omega
      · have hlower := hμ _ _ _ hthreads hthread
        omega
    · obtain ⟨hside, -⟩ | hthread := threads_inside hcalls (length_le h x) hq hkind hnot
      · exact absurd (hside.outcome.trans hbefore) hafter
      · have hlower := hμ _ _ _ hthreads hthread
        omega
  | @returned _ _ x q hq hkind hidle =>
    apply effort_le
    rw [threads_returned hcalls (length_le h x) hq hkind hidle]
    obtain hle | ⟨-, hafter, -⟩ := SafeQueue.effort_of_step hq
    · omega
    · rw [hidle] at hafter
      exact absurd rfl hafter
  | joined hreq hreturned =>
    have hlower := hμ _ _ _ hthreads (threads_joined hcalls hreq hreturned)
    simp only [effort]
    omega

/-- In any run no more steps are taken than this, and three for each spurious wakeup. -/
theorem length_le_effort
    (hμ : ∀ t i t', (Threads.lts prog (fun x => (cfg x).limit) begins).Reachable t →
      Threads.Step prog (fun x => (cfg x).limit) t i t' → μ t' + 1 ≤ μ t)
    {ls : List (Tid × StepKind)} (h : (lts prog cfg begins).Run ls s) :
    effort prog μ s + ls.length ≤
      7 * μ (.start begins) + Fintype.card ι * (Fintype.card Tid * 3) +
        3 * ls.countP (·.2 = .spurious) := by
  refine h.length_le ?_ fun s l s' hreach hstep => effort_of_step hμ hreach hstep
  rintro s rfl
  have hqueue (x : ι) : ((start begins : Clients Tid ι α L).queue x).effort =
      Fintype.card Tid * 3 := Finset.sum_const_nat fun _ _ => rfl
  have hthreads : threads prog (start begins) = (.start begins : Threads Tid ι α L) := by
    show Threads.mk _ _ = Threads.mk _ _
    rw [Threads.mk.injEq]
    exact ⟨rfl, funext fun i => place_of_idle fun _ => rfl⟩
  have hqueues : ∑ x, ((start begins : Clients Tid ι α L).queue x).effort =
      Fintype.card ι * (Fintype.card Tid * 3) := Finset.sum_const_nat fun x _ => hqueue x
  rw [effort, hthreads, hqueues]

/-- Under a schedule that wakes no thread without a reason the threads come to a halt. -/
theorem exists_halt
    (hμ : ∀ t i t', (Threads.lts prog (fun x => (cfg x).limit) begins).Reachable t →
      Threads.Step prog (fun x => (cfg x).limit) t i t' → μ t' + 1 ≤ μ t) :
    ∃ s, (lts prog cfg begins).Reachable s ∧
      ∀ l s', l.2 ≠ .spurious → ¬ Step prog cfg s l s' := by
  obtain ⟨s, hreach, hmin⟩ := (measure (effort prog μ)).wf.has_min
    {s | (lts prog cfg begins).Reachable s} ⟨_, .init rfl⟩
  refine ⟨s, hreach, fun ⟨i, kind⟩ s' hkind hstep => ?_⟩
  have hle := effort_of_step hμ hreach hstep
  rw [if_neg hkind] at hle
  exact hmin s' (Lts.Reachable.step hreach hstep) hle

/-- **Queues are as good as channels.** Whatever the threads do, in every state they are where they
could be with channels that meet every request in one step. When no thread can go on, but for
spurious wakeups, then no call is under way but those of sleeping threads, and with channels no
thread could go on either. And where the threads take at most `μ` steps with channels, the steps of
a run are limited, but for three with each spurious wakeup. -/
theorem as_channels {ls : List (Tid × StepKind)} (h : (lts prog cfg begins).Run ls s) :
    (Threads.lts prog (fun x => (cfg x).limit) begins).Reachable (s.threads prog) ∧
      ((∀ l s', l.2 ≠ .spurious → ¬ Step prog cfg s l s') →
        s.Rests ∧ (s.threads prog).pc = s.pc ∧
          ∀ i t, ¬ Threads.Step prog (fun x => (cfg x).limit) (s.threads prog) i t) ∧
      ∀ μ : Threads Tid ι α L → Nat,
        (∀ t i t', (Threads.lts prog (fun x => (cfg x).limit) begins).Reachable t →
          Threads.Step prog (fun x => (cfg x).limit) t i t' → μ t' + 1 ≤ μ t) →
        ls.length ≤ 7 * μ (.start begins) + Fintype.card ι * (Fintype.card Tid * 3) +
          3 * ls.countP (·.2 = .spurious) := by
  refine ⟨simulates.reachable h.reachable, stuck h.reachable, fun μ hμ => ?_⟩
  have hle := length_le_effort hμ h
  omega

end effort

/-- Every thread makes one call of one queue and returns. -/
def oneCall : Threads.Program Bool Unit Nat (Option (ChannelCall Nat)) where
  request c := c.map (.call ())
  resume _ _ := none

def pushAndPop (pushes : Bool) : Option (ChannelCall Nat) :=
  some (if pushes then .push 7 else .pop)

/-- The calls that have not been made. -/
def callsLeft (t : Threads Bool Unit Nat (Option (ChannelCall Nat))) : Nat :=
  (if (t.pc true).isSome then 1 else 0) + if (t.pc false).isSome then 1 else 0

theorem callsLeft_step {capacity : Unit → Option Nat}
    {t t' : Threads Bool Unit Nat (Option (ChannelCall Nat))} {i : Bool}
    (h : Threads.Step oneCall capacity t i t') : callsLeft t' + 1 ≤ callsLeft t := by
  have hmade {r : Request Bool Unit Nat} (hr : oneCall.request (t.pc i) = some r) :
      (t.pc i).isSome := by
    rw [Option.isSome_iff_ne_none]
    intro hnone
    rw [hnone] at hr
    cases hr
  cases h with
  | _ hr _ =>
    have hsome := hmade hr
    cases i <;> simp [callsLeft, oneCall, hsome, Nat.add_comm]

/-- The thread that pops sleeps until the other one has pushed, and both return. -/
theorem as_channels_pushAndPop : ∃ ls, ∃ s : Clients Bool Unit Nat (Option (ChannelCall Nat)),
    (lts oneCall (fun _ => ⟨true, 1, Nat.le_refl 1⟩) pushAndPop).Run ls s ∧
      s.pc = (fun _ => none) ∧
      (Threads.lts oneCall (fun _ => some 1) pushAndPop).Reachable (s.threads oneCall) ∧
      ls.length = 12 ∧ ls.length ≤ 7 * callsLeft (.start pushAndPop) + 2 * 3 := by
  have hasleep : (lts oneCall (fun _ => ⟨true, 1, Nat.le_refl 1⟩) pushAndPop).Run _ _ :=
    .concat (.concat (.concat (.nil rfl)
      (.callPop (i := false) (x := ()) rfl rfl))
      (.inside (x := ()) (.lockPop (i := false) (w := false) rfl rfl) (by decide) (by simp)))
      (.inside (x := ()) (.waitPop (i := false) (w := false) rfl rfl) (by decide) (by simp))
  have hpushed : (lts oneCall (fun _ => ⟨true, 1, Nat.le_refl 1⟩) pushAndPop).Run _ _ :=
    .concat (.concat (.concat (.concat (.concat hasleep
      (.callPush (i := true) (x := ()) (t := 7) rfl rfl))
      (.inside (x := ()) (.lockPush (i := true) (t := 7) (w := false) rfl rfl) (by decide)
        (by simp)))
      (.inside (x := ()) (.push (i := true) (t := 7) (w := false) rfl
        fun h => by simp [SafeQueue.Full, start, SafeQueue.start] at h) (by decide) (by simp)))
      (.inside (x := ()) (.unlockPush (i := true) rfl) (by decide) (by simp)))
      (.returned (x := ()) (.notifyData (i := true) false rfl rfl) (by decide) rfl)
  have hpopped : (lts oneCall (fun _ => ⟨true, 1, Nat.le_refl 1⟩) pushAndPop).Run _ _ :=
    .concat (.concat (.concat (.concat hpushed
      (.inside (x := ()) (.lockPop (i := false) (w := true) rfl rfl) (by decide) (by simp)))
      (.inside (x := ()) (.pop (i := false) (t := 7) (w := true) rfl rfl) (by decide) (by simp)))
      (.inside (x := ()) (.unlockPop (i := false) (t := 7) rfl) (by decide) (by simp)))
      (.returned (x := ()) (.notifyNoSpace (i := false) (t := 7) rfl fun _ j u hj => by
        cases j <;> cases hj) (by decide) rfl)
  obtain ⟨hreach, -, hbound⟩ := as_channels hpopped
  exact ⟨_, _, hpopped, funext fun i => by cases i <;> rfl, hreach, rfl,
    hbound callsLeft fun _ _ _ _ h => callsLeft_step h⟩

end Clients

end Nanonet
