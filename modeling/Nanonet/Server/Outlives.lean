import Nanonet.Server.Accounts

/-!
# The server outlives the use that its threads make of it

`operator()` of the server returns after the running flag went down and the counter was seen at zero.
From then on the counter stays there, so every connection thread is behind the destructor of its
sentry, the last step that uses the status, the handler or the running flag. A sleep that throws ends
`operator()` at any time, and leaves the threads that are counted then with a status that is gone.
-/

namespace Nanonet.Server

open ConnectionThread

namespace System

variable {s s' : System} {l : Label}

/-- Connection `k` has a sentry that is alive. -/
def sentryAlive (s : System) (k : Nat) : Bool := s.objects.any fun f => holds k f && hasSentry f

/-! ### The counter -/

theorem c_isSome_of_hasSentry (hok : s.Ok) {f : ConnectionThread} (hf : f ∈ s.objects)
    (hsentry : f.hasSentry = true) : f.c.isSome = true := by
  obtain hf | hf := List.mem_append.1 hf
  · exact AcceptPc.c_isSome_of_hasSentry hok.accept hf hsentry
  · obtain ⟨t, ht, rfl⟩ := List.mem_map.1 hf
    have hthread : t.Ok := hok.threads t ht
    exact hthread.connection.2 (hthread.sentry.1 hsentry).2

theorem connectionsCurrent_eq (hok : s.Ok) (hacc : s.Accounts) :
    s.shared.connectionsCurrent =
      (List.range s.shared.connections.length).countP s.sentryAlive := by
  have hkey : ∀ f ∈ s.objects, f.hasSentry = true →
      ∃ k < s.shared.connections.length, f.c = some k := by
    intro f hf hsentry
    obtain ⟨k, hk⟩ := Option.isSome_iff_exists.1 (c_isSome_of_hasSentry hok hf hsentry)
    exact ⟨k, Shared.isOpen_lt (hacc.isOpen_of_holds hf hk), hk⟩
  have hone : ∀ k, s.objects.countP (holds k) ≤ 1 := by
    intro k
    rw [hacc.owned k]
    exact Bool.toNat_le _
  rw [hacc.count]
  exact congrArg Nat.cast (countP_eq_countP_range hkey hone)

theorem not_serving (hok : s.Ok) (hacc : s.Accounts) (hzero : s.shared.connectionsCurrent = 0)
    {t : Thread} (ht : t ∈ s.threads) : ¬ t.pc.Serving := by
  rw [hacc.count, Int.natCast_eq_zero, List.countP_eq_zero] at hzero
  rw [← (hok.threads t ht).sentry]
  exact hzero t.f (List.mem_append_right _ (List.mem_map_of_mem ht))

/-! ### The end of the accept loop -/

theorem running_of_stopped (h : lts.Reachable s) : s.accept.Stopped → s.shared.running = false := by
  refine h.invariant (P := fun s => s.accept.Stopped → s.shared.running = false)
    (fun s hs => ?_) fun s l s' hreach ih hstep => ?_
  · rintro (hpc | hpc | hpc | hpc | hpc) <;> cases hs <;> cases hpc
  · intro hstopped
    have hdown : s.shared.running = false → s'.shared.running = false :=
      running_of_effect (effect_of_step (ok_of_reachable hreach) hstep)
    cases l with
    | accept a =>
      obtain ⟨pc, sh, started, hpc, rfl⟩ := accept_cases hstep
      obtain hprev | hrunning := AcceptPc.stopped_of_step hpc hstopped
      · exact hdown (ih hprev)
      · exact hdown hrunning
    | thread i a =>
      obtain ⟨t, t', sh, ht, hthread, rfl⟩ := thread_cases hstep
      exact hdown (ih hstopped)
    | shutdown =>
      cases hstep
      rfl

theorem connectionsCurrent_of_thread (h : lts.Reachable s)
    (hzero : s.shared.connectionsCurrent = 0) {i : Nat} {a : ThreadStep}
    (hstep : s.step (.thread i a) = some s') : s'.shared.connectionsCurrent = 0 := by
  obtain ⟨t, t', sh, ht, hthread, rfl⟩ := thread_cases hstep
  have hnot : ¬ t.pc.Serving := not_serving (ok_of_reachable h) (accounts_of_reachable h) hzero
    (List.mem_of_getElem? ht)
  obtain ⟨-, rfl⟩ := Thread.step_of_not_serving hnot hthread
  rwa [connectionsCurrent_destroyConnection]

theorem connectionsCurrent_of_drained (h : lts.Reachable s) :
    s.accept.Drained → s.shared.connectionsCurrent = 0 := by
  refine h.invariant (P := fun s => s.accept.Drained → s.shared.connectionsCurrent = 0)
    (fun s hs => ?_) fun s l s' hreach ih hstep => ?_
  · rintro (hpc | hpc | hpc) <;> cases hs <;> cases hpc
  · intro hdrained
    cases l with
    | accept a =>
      obtain ⟨pc, sh, started, hpc, rfl⟩ := accept_cases hstep
      obtain ⟨rfl, -⟩ := AcceptPc.ending_cases hpc (.inr (.inr hdrained))
      obtain hprev | hzero := AcceptPc.drained_of_step hpc hdrained
      · exact ih hprev
      · exact hzero
    | thread i a =>
      obtain ⟨t, t', sh, -, -, rfl⟩ := thread_cases hstep
      exact connectionsCurrent_of_thread hreach (ih hdrained) hstep
    | shutdown =>
      cases hstep
      exact ih hdrained

/-! ### Behind the end of `operator()` -/

/-- `operator()` is over, the flag is down, and no connection is counted. -/
structure Quiet (s : System) : Prop where
  ended : s.accept.Over
  running : s.shared.running = false
  connectionsCurrent : s.shared.connectionsCurrent = 0

theorem quiet_of_returned (h : lts.Reachable s) (hreturned : s.accept.Returned) : s.Quiet :=
  ⟨.inl hreturned, running_of_stopped h (.inr (.inr (.inr hreturned))),
    connectionsCurrent_of_drained h (.inr hreturned)⟩

theorem Quiet.step (hs : s.Quiet) (h : lts.Reachable s) (hstep : s.step l = some s') :
    s'.Quiet := by
  have hdown : s'.shared.running = false :=
    running_of_effect (effect_of_step (ok_of_reachable h) hstep) hs.running
  cases l with
  | accept a =>
    obtain ⟨pc, sh, started, hpc, rfl⟩ := accept_cases hstep
    obtain ⟨hover, -, rfl, rfl⟩ := AcceptPc.over_of_step hpc hs.ended
    exact ⟨hover, hdown, hs.connectionsCurrent⟩
  | thread i a =>
    have hzero := connectionsCurrent_of_thread h hs.connectionsCurrent hstep
    obtain ⟨t, t', sh, -, -, rfl⟩ := thread_cases hstep
    exact ⟨hs.ended, hdown, hzero⟩
  | shutdown =>
    cases hstep
    exact ⟨hs.ended, hdown, hs.connectionsCurrent⟩

theorem Quiet.run {ls : List Label} (hs : s.Quiet) (h : lts.Reachable s)
    (hrun : ls.foldlM System.step s = some s') : s'.Quiet := by
  induction ls generalizing s with
  | nil =>
    cases hrun
    exact hs
  | cons l ls ih =>
    rw [List.foldlM_cons, Option.bind_eq_bind, Option.bind_eq_some_iff] at hrun
    obtain ⟨t, ht, hrest⟩ := hrun
    exact ih (hs.step h ht) (.step h ht) hrest

/-- No connection thread will use the handler, the status or the running flag, whatever happens. -/
def NeverTouched (s : System) : Prop :=
  ∀ (ls : List Label) (s' : System), ls.foldlM step s = some s' →
    ∀ i a, ThreadStep.Touches a → s'.step (.thread i a) = none

theorem Quiet.neverTouched (hs : s.Quiet) (h : lts.Reachable s) : s.NeverTouched := by
  intro ls s' hrun i a ha
  by_contra hne
  obtain ⟨s'', hstep⟩ := Option.ne_none_iff_exists'.1 hne
  obtain ⟨t, t', sh, ht, hthread, rfl⟩ := thread_cases hstep
  have hreach : lts.Reachable s' := .foldlM (fun _ _ _ hstep => hstep) h hrun
  refine not_serving (ok_of_reachable hreach) (accounts_of_reachable hreach)
    (hs.run h hrun).connectionsCurrent (List.mem_of_getElem? ht) ?_
  exact Thread.serving_of_touches ha hthread

/-! ### A thread that is still serving -/

theorem not_neverTouched {i : Nat} {t : Thread} (ht : s.threads[i]? = some t)
    (hserving : t.pc.Serving) : ¬ s.NeverTouched := by
  intro hnever
  obtain ⟨a, t', sh, ha, hstep⟩ | ⟨a, t', hstep, hpc⟩ := t.exists_touch s.shared hserving
  · have hnone := hnever [] s rfl i a ha
    rw [step, ht, Option.bind_some, hstep] at hnone
    cases hnone
  · have hthread : s.step (.thread i a) = some ⟨s.accept, s.shared, s.threads.set i t'⟩ := by
      rw [step, ht, Option.bind_some, hstep]
      rfl
    have hrun : [Label.thread i a].foldlM step s =
        some ⟨s.accept, s.shared, s.threads.set i t'⟩ := by
      rw [List.foldlM_cons, hthread]
      rfl
    have hnone := hnever _ _ hrun i .destroySentry trivial
    rw [step, List.getElem?_set_self (List.getElem?_eq_some_iff.1 ht).1, Option.bind_some,
      Thread.step, if_pos hpc] at hnone
    cases hnone

theorem exists_serving (h : lts.Reachable s) (hobjects : s.accept.objects = [])
    (hcount : s.shared.connectionsCurrent ≠ 0) :
    ∃ (i : Nat) (t : Thread), s.threads[i]? = some t ∧ t.pc.Serving := by
  rw [(accounts_of_reachable h).count, objects, hobjects, List.nil_append] at hcount
  obtain ⟨f, hf, hsentry⟩ := List.countP_pos_iff.1 (Nat.pos_of_ne_zero (mt (congrArg _) hcount))
  obtain ⟨t, ht, rfl⟩ := List.mem_map.1 hf
  obtain ⟨i, hi⟩ := List.mem_iff_getElem?.1 ht
  exact ⟨i, t, hi, ((ok_of_reachable h).threads t ht).sentry.1 hsentry⟩

/-! ### Runs -/

/-- The counter is the number of connections whose sentry is alive and the total that of the
connections that got past setting their timeout; and where `operator()` is over, the flag is down
and no thread uses what the server lent it any more. -/
structure OutlivesThreads (s : System) : Prop where
  current : s.shared.connectionsCurrent =
    (List.range s.shared.connections.length).countP s.sentryAlive
  total : s.shared.connectionsTotal = s.shared.connections.countP Connection.timeoutSet
  ended : s.accept.Over → s.shared.running = false ∧ s.NeverTouched

theorem outlivesThreads_of_quiet (h : lts.Reachable s) (hquiet : s.accept.Over → s.Quiet) :
    s.OutlivesThreads where
  current := connectionsCurrent_eq (ok_of_reachable h) (accounts_of_reachable h)
  total := (accounts_of_reachable h).total
  ended hover := ⟨(hquiet hover).running, (hquiet hover).neverTouched h⟩

/-- A sleep that throws finds the flag down and no connection counted. -/
def ThrowsQuietly (s : System) (l : Label) : Prop :=
  l = .accept (.sleep false) → s.shared.running = false ∧ s.shared.connectionsCurrent = 0

theorem quiet_of_over (h : (lts.restrict ThrowsQuietly).Reachable s) : s.accept.Over → s.Quiet := by
  refine h.invariant (P := fun s => s.accept.Over → s.Quiet) (fun s hs => ?_)
    fun s l s' hreach ih hstep hover => ?_
  · rintro ((hpc | hpc) | hpc | hpc) <;> cases hs <;> cases hpc
  · obtain ⟨hthrows, hstep⟩ := hstep
    have hreach : lts.Reachable s := .of_restrict hreach
    cases l with
    | accept a =>
      obtain ⟨pc, sh, started, hpc, rfl⟩ := accept_cases hstep
      obtain hprev | rfl | rfl := AcceptPc.over_cases hpc hover
      · exact (ih hprev).step hreach hstep
      · obtain ⟨-, rfl, rfl, rfl⟩ := AcceptPc.leave_cases hpc
        exact quiet_of_returned (.step hreach hstep) (.inl rfl)
      · obtain ⟨-, rfl, rfl, rfl⟩ := AcceptPc.sleep_throws_cases hpc
        exact ⟨hover, (hthrows rfl).1, (hthrows rfl).2⟩
    | thread i a =>
      obtain ⟨t, t', sh, -, -, rfl⟩ := thread_cases hstep
      exact (ih hover).step hreach hstep
    | shutdown =>
      have hprev : s.accept.Over := by
        cases hstep
        exact hover
      exact (ih hprev).step hreach hstep

theorem throwsQuietly_of_over (h : lts.Reachable s)
    (hstep : s.step (.accept (.sleep false)) = some s') (hs' : s'.OutlivesThreads) :
    s.shared.running = false ∧ s.shared.connectionsCurrent = 0 := by
  obtain ⟨pc, sh, started, hpc, rfl⟩ := accept_cases hstep
  obtain ⟨hobjects, rfl, rfl, rfl⟩ := AcceptPc.sleep_throws_cases hpc
  obtain ⟨hdown, hnever⟩ := hs'.ended (.inr (.inl rfl))
  refine ⟨hdown, ?_⟩
  by_contra hcount
  obtain ⟨i, t, hi, hserving⟩ := exists_serving h hobjects hcount
  refine not_neverTouched (i := i) ?_ hserving hnever
  rwa [Option.toList_none, List.append_nil]

/-- In a run, the server outlives the use that its threads make of it in every state if and only if
every sleep that throws finds the flag down and no connection counted. -/
theorem outlives_threads_iff {ls : List Label} {t : System} (hrun : ls.foldlM step start = some t) :
    (∀ n s, (ls.take n).foldlM step start = some s → s.OutlivesThreads) ↔
      ∀ n s, ls[n]? = some (.accept (.sleep false)) → (ls.take n).foldlM step start = some s →
        s.shared.running = false ∧ s.shared.connectionsCurrent = 0 := by
  have hreach : ∀ n s, (ls.take n).foldlM step start = some s → lts.Reachable s :=
    fun n s hs => .foldlM (fun _ _ _ h => h) (.init rfl) hs
  constructor
  · intro houtlives n s hn hs
    obtain ⟨s', hstep, hs'⟩ := Lts.exists_foldlM_take_succ hrun hn hs
    exact throwsQuietly_of_over (hreach n s hs) hstep (houtlives (n + 1) s' hs')
  · intro hquiet n s hs
    refine outlivesThreads_of_quiet (hreach n s hs) (quiet_of_over ?_)
    have hstart : (lts.restrict ThrowsQuietly).Reachable start := .init rfl
    refine hstart.restrict_foldlM (fun _ _ _ h => h) (fun n u l hn hu hl => ?_) n hs
    exact hquiet n u (hl ▸ hn) hu

/-- One connection; the flag goes down before its thread looks, and the accept loop returns as soon as
the sentry of the thread is gone. -/
def earlyShutdown : List Label :=
  [.accept .test, .accept (.accept .accepted), .accept (.setTimeout true), .accept .makeSentry,
    .accept (.construct true), .accept (.startThread true), .accept .detach, .shutdown,
    .thread 0 .checkRunning, .thread 0 .destroySentry, .accept .test, .accept .readCount,
    .accept .leave]

theorem outlives_threads_earlyShutdown :
    ∃ s, earlyShutdown.foldlM step start = some s ∧ s.accept = .returned ∧
      s.shared.connectionsTotal = 1 ∧ s.shared.running = false ∧ s.NeverTouched := by
  obtain ⟨s, hrun⟩ : ∃ s, earlyShutdown.foldlM step start = some s := ⟨_, rfl⟩
  have hstate : s.accept = .returned ∧ s.shared.connectionsTotal = 1 := by
    cases hrun
    exact ⟨rfl, rfl⟩
  have houtlives : s.OutlivesThreads := by
    refine (outlives_threads_iff hrun).2 (fun n u hn hu => ?_) 13 s hrun
    obtain ⟨hlt, -⟩ := List.getElem?_eq_some_iff.1 hn
    exact absurd hn ((by decide : ∀ n < 13, earlyShutdown[n]? ≠ some (.accept (.sleep false))) n hlt)
  exact ⟨s, hrun, hstate.1, hstate.2, houtlives.ended (.inl (.inl hstate.1))⟩

/-- The thread of a connection is in its handler when the flag goes down, and a signal interrupts the
loop that waits for it. -/
def interruptedWait : List Label :=
  [.accept .test, .accept (.accept .accepted), .accept (.setTimeout true), .accept .makeSentry,
    .accept (.construct true), .accept (.startThread true), .accept .detach,
    .thread 0 .checkRunning, .thread 0 (.setUp true), .thread 0 .log, .shutdown, .accept .test,
    .accept .readCount, .accept (.sleep false)]

theorem not_outlives_interruptedWait :
    ¬ ∀ s, lts.Reachable s → s.OutlivesThreads := by
  intro hall
  obtain ⟨s, hrun⟩ : ∃ s, interruptedWait.foldlM step start = some s := ⟨_, rfl⟩
  have houtlives := hall s (.foldlM (fun _ _ _ hstep => hstep) (.init rfl) hrun)
  cases hrun
  have hnone := (houtlives.ended (.inr (.inl rfl))).2 [] _ rfl 0 (.welcome (.returns true)) trivial
  cases hnone

end System

end Nanonet.Server
