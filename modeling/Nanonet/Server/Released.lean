import Nanonet.Server.Outlives

/-!
# What is left open when the server returns

`operator()` of the server waits for the sentries. The connection of a thread is a member that is
destroyed after the sentry, so a thread may still stand between the two when the wait is over, and
its socket is open then. A sleep that throws ends `operator()` without any wait.
-/

namespace Nanonet.Server

open ConnectionThread

namespace System

variable {s s' : System} {l : Label}

/-- Every connection that was accepted released its socket. -/
def AllReleased (s : System) : Prop := ∀ x ∈ s.shared.connections, x.isOpen = false

/-- No thread destroyed its sentry and has yet to destroy its connection. -/
def NoneBetween (s : System) : Prop := ∀ t ∈ s.threads, t.pc ≠ .destroyingConnection

def AllDone (s : System) : Prop := ∀ t ∈ s.threads, t.pc = .done

/-- `operator()` does not return while a thread is between its two destructors, and no sleep throws
before all threads are done. -/
def WaitsForConnections (s : System) (l : Label) : Prop :=
  (l = .accept .leave → s.NoneBetween) ∧ (l = .accept (.sleep false) → s.AllDone)

instance : Decidable s.NoneBetween :=
  inferInstanceAs (Decidable (∀ t ∈ s.threads, t.pc ≠ .destroyingConnection))

theorem allReleased_iff : s.AllReleased ↔ ∀ k, s.shared.isOpen k = false := by
  constructor
  · intro h k
    rw [Shared.isOpen, Option.any_eq_false]
    intro x hx
    exact Bool.not_eq_true _ ▸ h x (List.mem_of_getElem? hx)
  · intro h x hx
    obtain ⟨k, hk⟩ := List.mem_iff_getElem?.1 hx
    have hclosed := h k
    rwa [Shared.isOpen, hk] at hclosed

/-- Where the accept loop owns nothing, the threads that are not done are all that keeps a socket
open. -/
theorem allReleased_iff_allDone (h : lts.Reachable s) (hobjects : s.accept.objects = []) :
    s.AllReleased ↔ s.AllDone := by
  have hok : s.Ok := ok_of_reachable h
  have hacc : s.Accounts := accounts_of_reachable h
  rw [allReleased_iff]
  constructor
  · intro hclosed t ht
    by_contra hne
    obtain ⟨k, hk⟩ := Option.isSome_iff_exists.1 ((hok.threads t ht).connection.2 hne)
    have hmem : t.f ∈ s.objects := List.mem_append_right _ (List.mem_map_of_mem ht)
    exact Bool.eq_false_iff.1 (hclosed k) (hacc.isOpen_of_holds hmem hk)
  · intro hdone k
    by_contra hopen
    have hcount := hacc.owned k
    rw [Bool.not_eq_false] at hopen
    rw [hopen, objects, hobjects, List.nil_append] at hcount
    obtain ⟨f, hf, hholds⟩ := List.countP_pos_iff.1 (Nat.lt_of_lt_of_eq Nat.one_pos hcount.symm)
    obtain ⟨t, ht, rfl⟩ := List.mem_map.1 hf
    refine absurd (hdone t ht) ((hok.threads t ht).connection.1 ?_)
    rw [beq_iff_eq.1 hholds]
    rfl

theorem noneBetween_iff_allDone (h : lts.Reachable s) (hzero : s.shared.connectionsCurrent = 0) :
    s.NoneBetween ↔ s.AllDone := by
  refine forall₂_congr fun t ht => ⟨fun hbetween => ?_, fun hdone => ?_⟩
  · by_contra hne
    exact not_serving (ok_of_reachable h) (accounts_of_reachable h) hzero ht ⟨hbetween, hne⟩
  · rw [hdone]
    nofun

theorem allDone_of_over (h : (lts.restrict WaitsForConnections).Reachable s) :
    s.accept.Over → s.AllDone := by
  refine h.invariant (P := fun s => s.accept.Over → s.AllDone)
    (fun s hs => ?_) fun s l s' hreach ih hstep hover => ?_
  · cases hs
    exact fun _ => nofun
  · obtain ⟨hwaits, hstep⟩ := hstep
    have hreach : lts.Reachable s := .of_restrict hreach
    cases l with
    | accept a =>
      obtain ⟨pc, sh, started, hpc, rfl⟩ := accept_cases hstep
      obtain hprev | rfl | rfl := AcceptPc.over_cases hpc hover
      · obtain ⟨-, -, rfl, rfl⟩ := AcceptPc.over_of_step hpc hprev
        simpa [AllDone] using ih hprev
      · obtain ⟨hcomplete, rfl, rfl, rfl⟩ := AcceptPc.leave_cases hpc
        have hzero := connectionsCurrent_of_drained hreach (.inl hcomplete)
        simpa [AllDone] using (noneBetween_iff_allDone hreach hzero).1 (hwaits.1 rfl)
      · obtain ⟨-, rfl, rfl, rfl⟩ := AcceptPc.sleep_throws_cases hpc
        simpa [AllDone] using hwaits.2 rfl
    | thread i a =>
      -- a thread that is done takes no step
      obtain ⟨t, t', sh, ht, hthread, rfl⟩ := thread_cases hstep
      have hdone : t.pc = .done := ih hover t (List.mem_of_getElem? ht)
      have hpc := (Thread.step_of_not_serving (fun hserving => hserving.2 hdone) hthread).1
      rw [hdone] at hpc
      cases hpc
    | shutdown =>
      cases hstep
      exact ih hover

/-! ### Runs -/

/-- In a run, all sockets are released in every state where `operator()` is over or its caller
returned if and only if no thread was between its two destructors when `operator()` returned, and all
threads were done when a sleep in it threw. -/
theorem released_iff {ls : List Label} {t : System} (hrun : ls.foldlM step start = some t) :
    (∀ n s, (ls.take n).foldlM step start = some s → s.accept.Over → s.AllReleased) ↔
      (∀ n s, ls[n]? = some (.accept .leave) → (ls.take n).foldlM step start = some s →
        s.NoneBetween) ∧
      ∀ n s, ls[n]? = some (.accept (.sleep false)) → (ls.take n).foldlM step start = some s →
        s.AllDone := by
  have hreach : ∀ n s, (ls.take n).foldlM step start = some s → lts.Reachable s :=
    fun n s hs => .foldlM (fun _ _ _ h => h) (.init rfl) hs
  constructor
  · intro hreleased
    have hdone : ∀ n s, (ls.take n).foldlM step start = some s → s.accept.Over → s.AllDone := by
      intro n s hs hover
      have hobjects := AcceptPc.objects_of_over hover
      exact (allReleased_iff_allDone (hreach n s hs) hobjects).1 (hreleased n s hs hover)
    constructor
    · intro n s hn hs
      obtain ⟨s', hstep, hs'⟩ := Lts.exists_foldlM_take_succ hrun hn hs
      obtain ⟨pc, sh, started, hpc, rfl⟩ := accept_cases hstep
      obtain ⟨hcomplete, rfl, rfl, rfl⟩ := AcceptPc.leave_cases hpc
      have hzero := connectionsCurrent_of_drained (hreach n s hs) (.inl hcomplete)
      rw [noneBetween_iff_allDone (hreach n s hs) hzero]
      simpa [AllDone] using hdone _ _ hs' (.inl (.inl rfl))
    · intro n s hn hs
      obtain ⟨s', hstep, hs'⟩ := Lts.exists_foldlM_take_succ hrun hn hs
      obtain ⟨pc, sh, started, hpc, rfl⟩ := accept_cases hstep
      obtain ⟨-, rfl, rfl, rfl⟩ := AcceptPc.sleep_throws_cases hpc
      simpa [AllDone] using hdone _ _ hs' (.inr (.inl rfl))
  · intro ⟨hleave, hsleep⟩ n s hs hover
    have hstart : (lts.restrict WaitsForConnections).Reachable start := .init rfl
    have hrestrict : (lts.restrict WaitsForConnections).Reachable s := by
      refine hstart.restrict_foldlM (fun _ _ _ h => h) (fun n u l hn hu => ?_) n hs
      exact ⟨fun hl => hleave n u (hl ▸ hn) hu, fun hl => hsleep n u (hl ▸ hn) hu⟩
    rw [allReleased_iff_allDone (hreach n s hs) (AcceptPc.objects_of_over hover)]
    exact allDone_of_over hrestrict hover

/-- The thread destroys its connection before the accept loop looks at the counter. -/
def orderlyShutdown : List Label :=
  [.accept .test, .accept (.accept .accepted), .accept (.setTimeout true), .accept .makeSentry,
    .accept (.construct true), .accept (.startThread true), .accept .detach, .shutdown,
    .thread 0 .checkRunning, .thread 0 .destroySentry, .thread 0 .destroyConnection, .accept .test,
    .accept .readCount, .accept .leave]

theorem released_orderlyShutdown :
    ∃ s, orderlyShutdown.foldlM step start = some s ∧ s.accept = .returned ∧
      s.shared.connections ≠ [] ∧ s.AllReleased := by
  obtain ⟨s, hrun⟩ : ∃ s, orderlyShutdown.foldlM step start = some s := ⟨_, rfl⟩
  have hreturned : s.accept = .returned ∧ s.shared.connections ≠ [] := by
    cases hrun
    exact ⟨rfl, nofun⟩
  refine ⟨s, hrun, hreturned.1, hreturned.2, ?_⟩
  refine (released_iff hrun).2 ⟨fun n u hn hu => ?_, fun n u hn hu => ?_⟩ 14 s hrun
    (.inl (.inl hreturned.1))
  · obtain ⟨hlt, -⟩ := List.getElem?_eq_some_iff.1 hn
    obtain rfl : n = 13 :=
      (by decide : ∀ n < 14, orderlyShutdown[n]? = some (.accept .leave) → n = 13) n hlt hn
    cases hu
    decide
  · obtain ⟨hlt, -⟩ := List.getElem?_eq_some_iff.1 hn
    exact absurd hn
      ((by decide : ∀ n < 14, orderlyShutdown[n]? ≠ some (.accept (.sleep false))) n hlt)

/-- The caller of `operator()` may return with a socket still open. -/
theorem not_released_earlyShutdown :
    ¬ ∀ s, lts.Reachable s → s.accept.Returned → s.AllReleased := by
  intro hall
  obtain ⟨s, hrun⟩ :
      ∃ s, (earlyShutdown ++ [Label.accept .callerLeaves]).foldlM step start = some s := ⟨_, rfl⟩
  have hstate : s.accept = .callerReturned false ∧ s.shared.connections = [⟨true, true⟩] := by
    cases hrun
    exact ⟨rfl, rfl⟩
  have hreach : lts.Reachable s := .foldlM (fun _ _ _ hstep => hstep) (.init rfl) hrun
  have hclosed := hall s hreach (.inr hstate.1) ⟨true, true⟩
  rw [hstate.2] at hclosed
  exact absurd (hclosed (List.mem_singleton_self _)) nofun

end System

end Nanonet.Server
