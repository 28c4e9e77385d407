import Nanonet.Dispatch.Ownership

/-!
# Shutting a pool down

When the destructor of a pool has joined its workers, each of them has returned, and what was
accepted and not executed by then is what is still in the queue (`lost_is_queued`): nothing, as
long as no task dispatches to the pool after the last end marker was queued. A task that does is
never executed, although its `dispatch()` returns.
-/

namespace Nanonet

namespace Crew

variable {τ : Type*} {c : Crew τ}

theorem returned_of_at (h : c.Inv) {m : Nat} (hat : c.At m c.threads.length) :
    ∀ w ∈ c.threads, w.pc = .returned := by
  intro w hw
  obtain ⟨i, hi⟩ := List.mem_iff_getElem?.1 hw
  have hlt : i < c.threads.length := (List.getElem?_eq_some_iff.1 hi).1
  have hjoins : w.joins = 1 := by rw [hat.thread hi, if_pos hlt]
  exact (h.workers w hw).joins (by rw [hjoins]; exact Nat.one_pos)

end Crew

namespace World

variable {Oid τ : Type*} [DecidableEq Oid] {s : World Oid τ}

theorem joined_crew (h : (lts Oid τ).Reachable s) {o : Oid} {p : ThreadPool} {q : Nat}
    (ho : s.objects o = .joining p p.numWorkers) (htasks : p.tasks = some q) :
    ∃ c, s.crews[q]? = some c ∧ (Crew.lts τ).Reachable c ∧ c.threads.length = p.numWorkers ∧
      ∀ w ∈ c.threads, w.pc = .returned := by
  have hholds : Holds s.crews p p.numWorkers p.numWorkers :=
    (inv h).holds o p _ _ (by rw [ho]; rfl) fun _ => by rw [ho]; exact id
  obtain rfl | ⟨r, c, hc, hat, rfl⟩ := hholds.cases
  · cases htasks
  · cases htasks
    rw [numWorkers_handles] at hat ⊢
    have hcrew := reachable_of_crew h hc
    exact ⟨c, hc, hcrew, rfl, Crew.returned_of_at (Crew.inv hcrew) hat⟩

/-- In every run, the accepted tasks that a destructor leaves behind are the ones in the queue. -/
theorem lost_is_queued (h : (lts Oid τ).Reachable s) {o : Oid} {p : ThreadPool} {q : Nat}
    (ho : s.objects o = .joining p p.numWorkers) (htasks : p.tasks = some q) :
    ∃ c, s.crews[q]? = some c ∧ markers c.tasks.content = 0 ∧
      (c.executed ++ c.tasks.content.reduceOption).Perm c.dispatched := by
  obtain ⟨c, hc, hcrew, -, hret⟩ := joined_crew h ho htasks
  exact ⟨c, hc, Crew.executed_append_queued hcrew hret⟩

/-! ### Every dispatch before the destructor -/

theorem unsignalled_crew (h : ((lts Oid τ).restrict (DispatchOnly PoolObject.IsLive)).Reachable s)
    {q : Nat} {c : Crew τ} (hc : s.crews[q]? = some c) :
    ((Crew.lts τ).restrict (Crew.DispatchOnly Crew.Unsignalled)).Reachable c := by
  refine crew_reachable ?_ h hc
  intro x p m j c hstage hlive hat _
  cases x with
  | live p' =>
    cases hstage
    exact hat.markers
  | _ => cases hlive

/-- **The destructor waits for all tasks.** When all dispatches to a pool come before its
destructor, and the destructor has joined the workers, every dispatched task was executed exactly
once, in the order of the dispatches by a single worker, every worker has returned after exactly one
end marker, and the queue is empty. No worker returns while a task is queued. -/
theorem destructor_executes
    (h : ((lts Oid τ).restrict (DispatchOnly PoolObject.IsLive)).Reachable s) :
    (∀ o p q, s.objects o = .joining p p.numWorkers → p.tasks = some q →
      ∃ c, s.crews[q]? = some c ∧ c.executed.Perm c.dispatched ∧
        (p.numWorkers = 1 → c.executed = c.dispatched) ∧ c.threads.length = p.numWorkers ∧
        (∀ w ∈ c.threads, w.pc = .returned ∧ w.ends = 1) ∧ c.tasks.content = []) ∧
    ∀ (q : Nat) (c : Crew τ), s.crews[q]? = some c → ∀ w ∈ c.threads, w.pc = .returned →
      ∀ t, some t ∉ c.tasks.content := by
  refine ⟨fun o p q ho htasks => ?_, fun q c hc w hw hret t => ?_⟩
  · obtain ⟨c, hc, hcrew, hlen, hret⟩ := joined_crew h.of_restrict ho htasks
    have hopen := Crew.reachable_open (unsignalled_crew h hc)
    obtain ⟨hperm, hnil, horder⟩ := Crew.drained hopen hret
    refine ⟨c, hc, hperm, fun hone => horder ?_, hlen, fun w hw => ⟨hret w hw, ?_⟩, hnil⟩
    · rw [hlen, hone]
    · rw [((Crew.inv hcrew).workers w hw).ends, hret w hw, Worker.endsAt]
  · exact Crew.task_not_queued (unsignalled_crew h hc) hw hret t

/-- Two workers, one task before and one after the pool was moved, and its destructor. -/
theorem destructor_executes_moved :
    ∃ s : World Nat Nat, ((lts Nat Nat).restrict (DispatchOnly PoolObject.IsLive)).Reachable s ∧
      s.objects 1 = .joining ⟨some 0, [(0, 0), (0, 1)]⟩ 2 ∧
      ∃ c, s.crews[0]? = some c ∧ c.dispatched = [5, 6] ∧ c.executed.Perm c.dispatched ∧
        c.tasks.content = [] := by
  have hrun := reachable_of_run (DispatchOnly PoolObject.IsLive : World Nat Nat → _)
    [.construct 0 2 2, .dispatch none 0 5, .moveConstruct 1 0, .dispatch none 1 6, .work 0 0,
      .work 0 1, .destroy 1, .destroy 1, .destroy 1, .destroy 1, .work 0 1, .work 0 1, .work 0 0,
      .work 0 0, .destroy 1, .destroy 1] rfl
  obtain ⟨c, hc, hperm, -, -, -, hnil⟩ := (destructor_executes hrun).1 1 _ 0 rfl rfl
  refine ⟨_, hrun, rfl, c, hc, ?_, hperm, hnil⟩
  cases hc
  rfl

/-! ### Every dispatch before the last marker -/

/-- Before the last marker, there is a worker that no marker was queued for. -/
theorem open_crew
    (h : ((lts Oid τ).restrict (DispatchOnly PoolObject.BeforeLastMarker)).Reachable s)
    {q : Nat} {c : Crew τ} (hc : s.crews[q]? = some c) :
    ((Crew.lts τ).restrict (Crew.DispatchOnly Crew.Open)).Reachable c := by
  refine crew_reachable ?_ h hc
  intro x p m j c hstage hbefore hat hlen hne
  rw [hat.markers]
  cases x with
  | live p' =>
    cases hstage
    exact List.length_pos_iff.2 hne
  | signalling p' i =>
    cases hstage
    rw [← hlen]
    exact hbefore
  | _ => cases hbefore

/-- **No accepted task is dropped**, by whatever thread or task it was dispatched, as long as every
dispatch to a pool comes before its destructor has queued the last end marker. -/
theorem accepted_executed
    (h : ((lts Oid τ).restrict (DispatchOnly PoolObject.BeforeLastMarker)).Reachable s) :
    ∀ o p q, s.objects o = .joining p p.numWorkers → p.tasks = some q →
      ∃ c, s.crews[q]? = some c ∧ c.executed.Perm c.dispatched ∧ c.tasks.content = [] := by
  intro o p q ho htasks
  obtain ⟨c, hc, -, -, hret⟩ := joined_crew h.of_restrict ho htasks
  obtain ⟨hperm, hnil, -⟩ := Crew.drained (open_crew h hc) hret
  exact ⟨c, hc, hperm, hnil⟩

/-- One worker, whose task dispatches another one while the destructor has not queued the marker. -/
theorem accepted_executed_nested :
    ∃ s : World Nat Nat,
      ((lts Nat Nat).restrict (DispatchOnly PoolObject.BeforeLastMarker)).Reachable s ∧
      s.objects 0 = .joining ⟨some 0, [(0, 0)]⟩ 1 ∧
      ∃ c, s.crews[0]? = some c ∧ c.dispatched = [1, 2] ∧ c.executed.Perm c.dispatched ∧
        c.tasks.content = [] := by
  have hrun := reachable_of_run (DispatchOnly PoolObject.BeforeLastMarker : World Nat Nat → _)
    [.construct 0 1 1, .dispatch none 0 1, .work 0 0, .destroy 0, .dispatch (some (0, 0)) 0 2,
      .destroy 0, .destroy 0, .work 0 0, .work 0 0, .work 0 0, .work 0 0, .destroy 0] rfl
  obtain ⟨c, hc, hperm, hnil⟩ := accepted_executed hrun 0 _ 0 rfl rfl
  refine ⟨_, hrun, rfl, c, hc, ?_, hperm, hnil⟩
  cases hc
  rfl

/-- A task that dispatches another one after the marker was queued: its dispatch returns, the
destructor joins the worker, and the second task is left in the queue. -/
theorem late_dispatch_dropped :
    ∃ s : World Nat Nat, (lts Nat Nat).Reachable s ∧
      s.objects 0 = .joining ⟨some 0, [(0, 0)]⟩ 1 ∧
      ∃ c, s.crews[0]? = some c ∧ c.dispatched = [1, 2] ∧ c.executed = [1] ∧
        c.tasks.content = [some 2] ∧ ¬ (c.executed.Perm c.dispatched ∧ c.tasks.content = []) := by
  have hrun := reachable_of_run (fun (_ : World Nat Nat) _ => True)
    [.construct 0 1 1, .dispatch none 0 1, .work 0 0, .destroy 0, .destroy 0, .destroy 0,
      .dispatch (some (0, 0)) 0 2, .work 0 0, .work 0 0, .destroy 0] rfl
  refine ⟨_, hrun.of_restrict, rfl, _, rfl, rfl, rfl, rfl, ?_⟩
  rintro ⟨-, hnil⟩
  cases hnil

end World

end Nanonet
