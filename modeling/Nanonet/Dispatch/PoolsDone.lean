import Nanonet.Dispatch.PoolTotals
import Nanonet.Dispatch.Shutdown

/-!
# What the destructors of a layered program wait for

In a layered program no pool is called once its destructor has started, although tasks go on calling
older pools while younger ones are destroyed (`Pools.unsignalled`). So every pool has executed all
its tasks when it is destroyed, and at the end of the program exactly the tasks have been executed
that the code of the main thread asks for, directly or through other tasks (`Pools.all_executed`).
`dispatch_returning()` comes back only after its task was executed, and the frame that a wrapper
refers to is there for as long as the wrapper (`Pools.returning_safe`).
-/

namespace Nanonet

variable {τ : Type*}

/-! ### The tasks of a program -/

namespace Program

/-- The tasks that a task stands for, `n` levels deep: itself, and those it calls. -/
def tasks (P : Program τ) : Nat → τ → List τ
  | 0, _ => []
  | n + 1, t => t :: (P.body t).flatMap fun c => P.tasks n c.task

def tasksOf (P : Program τ) (t : τ) : List τ := P.tasks (P.home t + 1) t

/-- The tasks that the calls of a task stand for. -/
def below (P : Program τ) (t : τ) : List τ := (P.body t).flatMap fun c => P.tasksOf c.task

/-- The tasks that a statement stands for. -/
def stmtTasks (P : Program τ) : Stmt τ → List τ
  | .call c => P.tasksOf c.task
  | _ => []

/-- The tasks that the code of the main thread asks for. -/
def allTasks (P : Program τ) : List τ := P.main.flatMap P.stmtTasks

variable {P : Program τ}

theorem tasks_eq (hP : P.Layered) {n m : Nat} {t : τ} (hn : P.home t < n) (hm : P.home t < m) :
    P.tasks n t = P.tasks m t := by
  induction n generalizing m t with
  | zero => omega
  | succ n ih =>
    cases m with
    | zero => omega
    | succ m =>
      rw [tasks, tasks]
      congr 1
      apply List.flatMap_congr
      intro c hc
      have hlt := hP t c hc
      exact ih (by omega) (by omega)

theorem tasksOf_eq (hP : P.Layered) (t : τ) : P.tasksOf t = t :: P.below t := by
  rw [tasksOf, tasks, below]
  congr 1
  apply List.flatMap_congr
  intro c hc
  exact tasks_eq hP (hP t c hc) (Nat.lt_succ_self _)

theorem stmtTasks_calls (t : τ) : ((P.body t).map .call).flatMap P.stmtTasks = P.below t := by
  rw [List.flatMap_map]
  rfl

end Program

/-! ### Nothing is lost on the way -/

namespace Pools

variable {P : Program τ} {s s' : Pools τ} {k : Caller}

def toCall (P : Program τ) (f : Frame τ) : Multiset τ := f.todo.flatMap P.stmtTasks

/-- The tasks that were dispatched to a crew, and those that its queued jobs will call. -/
def asked (P : Program τ) (c : Crew (Job τ)) : Multiset τ :=
  (c.dispatched.map Job.task : Multiset τ) + c.load (fun j => ↑(P.below j.task)) fun _ => 0

theorem toCall_cons (x : Stmt τ) (rest : List (Stmt τ)) (a : Option τ) :
    toCall P ⟨x :: rest, a⟩ = (P.stmtTasks x : Multiset τ) + toCall P ⟨rest, none⟩ := by
  rw [toCall, List.flatMap_cons, ← Multiset.coe_add]
  rfl

theorem toCall_call (hP : P.Layered) (b : PoolCall τ) (rest : List (Stmt τ)) :
    toCall P ⟨.call b :: rest, none⟩ =
      {b.task} + (P.below b.task : Multiset τ) + toCall P ⟨rest, none⟩ := by
  rw [toCall_cons, Program.stmtTasks, Program.tasksOf_eq hP, Multiset.singleton_add,
    Multiset.cons_coe]

theorem toCall_body (t : τ) (rest : List (Stmt τ)) :
    toCall P ⟨(P.body t).map .call ++ rest, none⟩ =
      (P.below t : Multiset τ) + toCall P ⟨rest, none⟩ := by
  rw [toCall, List.flatMap_append, Program.stmtTasks_calls, ← Multiset.coe_add]
  rfl

theorem asked_same {c c' : Crew (Job τ)} (hd : c'.dispatched = c.dispatched)
    (hl : c'.load (fun j => (P.below j.task : Multiset τ)) (fun _ => 0) =
      c.load (fun j => (P.below j.task : Multiset τ)) fun _ => 0) : asked P c' = asked P c := by
  rw [asked, asked, hd, hl]

theorem conserved (hP : P.Layered) : Weighing P (toCall P) (asked P) (asked P) Eq where
  idle := rfl
  fresh := by
    rw [asked, Crew.load_start]
    rfl
  add a b c h := by rw [h]
  resume _ := rfl
  construct n rest := by
    rw [toCall_cons, asked, Crew.load_start]
    exact add_comm _ _
  dispatch k b rest c := by
    rw [toCall_call hP, asked, asked, Crew.load_dispatch, Crew.dispatch, List.map_append,
      ← Multiset.coe_add]
    show _ = toCall P ⟨rest, none⟩ + (_ + {b.task} + ((P.below b.task : Multiset τ) + _))
    abel
  execute b rest c := by
    rw [toCall_call hP, toCall_body, asked, asked, Crew.load_execute, Crew.execute, List.map_append,
      ← Multiset.coe_add]
    show _ = _ + (_ + {b.task} + _)
    abel
  signal i rest c _ := by
    have hsame : asked P c.signal = asked P c := asked_same rfl (Crew.load_signal _ _ c)
    rw [toCall_cons, toCall_cons, hsame]
    rfl
  signalled i rest := rfl
  join i rest c c' hjoin := by
    have hsame : asked P c' = asked P c := by
      refine asked_same ?_ (Crew.load_join _ _ hjoin)
      obtain ⟨ws, w, ws', -, -, -, rfl⟩ := Crew.join_cases hjoin
      rfl
    rw [toCall_cons, toCall_cons, hsame]
    rfl
  joined i rest c := by
    rw [toCall_cons]
    exact congrArg (· + _) (zero_add _)
  take i j c c' htake := by
    obtain ⟨rest, hc, hc'⟩ := htake.load (fun j => (P.below j.task : Multiset τ)) fun _ => 0
    have hbody := toCall_body (P := P) j.task []
    rw [List.append_nil] at hbody
    rw [hbody, asked, asked, hc, hc', htake.dispatched, zero_add]
    show _ = _ + 0 + _
    abel
  leave i c c' hleave := (asked_same hleave.dispatched hleave.load).symm
  finish i j c c' hfinish := by
    refine (asked_same hfinish.dispatched ?_).symm
    rw [hfinish.load, zero_add]

/-! ### No pool is called once it was signalled -/

theorem Inv.callee (h : Inv P (fun n t => P.home t < n) s) {c : PoolCall τ} {rest : List (Stmt τ)}
    (hk : s.frames k = ⟨.call c :: rest, none⟩) :
    P.home c.task < s.size ∧ (s.crews (P.home c.task)).At 0 0 := by
  cases k with
  | main =>
    obtain ⟨hat, hlt, -⟩ := (h.mainAt hk).call_inv
    exact ⟨hlt, hat _ hlt⟩
  | worker p i =>
    have hlive : p < s.size := by
      by_contra hp
      apply h.current_ne hk
      rw [h.beyond p (by omega)]
      rfl
    obtain ⟨c', hc, hlt⟩ := h.calls p i (.call c) (by rw [hk]; exact List.mem_cons_self)
    cases hc
    exact ⟨by omega, h.main.at_of_lt (by omega)⟩

theorem unsignalled (hP : P.Layered) (h : (lts P).Reachable s) :
    ∀ p, ((Crew.lts (Job τ)).restrict (Crew.DispatchOnly Crew.Unsignalled)).Reachable
      (s.crews p) := by
  refine h.invariant (P := fun s => ∀ p,
    ((Crew.lts (Job τ)).restrict (Crew.DispatchOnly Crew.Unsignalled)).Reachable (s.crews p)) ?_ ?_
  · rintro s rfl p
    exact .init ⟨0, rfl⟩
  · intro s k s' hreach ih hstep
    have hinv := inv (.layered hP) hreach
    refine hinv.crews_move (step_cases hstep) ih (fun n => .init ⟨n, rfl⟩) ?_
    intro p a c hc hcall
    refine .step (ih p) ⟨?_, hc⟩
    cases a with
    | dispatch j =>
      obtain ⟨-, b, rest, hk, rfl⟩ := hcall j rfl
      exact (hinv.callee hk).2.markers
    | _ => trivial

end Pools

/-! ### What is left of a pool -/

/-- Every task was executed once, in the order of the dispatches by a single thread, and every
thread has returned after one end marker and was joined once. -/
structure Crew.Done (c : Crew τ) : Prop where
  executed : c.executed.Perm c.dispatched
  inOrder : c.threads.length ≤ 1 → c.executed = c.dispatched
  threads : ∀ w ∈ c.threads, w.pc = .returned ∧ w.ends = 1 ∧ w.joins = 1
  empty : c.tasks.content = []

theorem Crew.Done.of_joined {c : Crew τ} {n : Nat}
    (h : ((lts τ).restrict (DispatchOnly Unsignalled)).Reachable c)
    (hat : c.At c.threads.length n) (hle : c.threads.length ≤ n) : c.free.Done := by
  have hinv := Crew.inv h.of_restrict
  have hthreads : ∀ w ∈ c.threads, w.pc = .returned ∧ w.ends = 1 ∧ w.joins = 1 := by
    intro w hw
    obtain ⟨i, hi⟩ := List.mem_iff_getElem?.1 hw
    have hjoins : w.joins = 1 := by
      rw [hat.thread hi, if_pos ((List.getElem?_eq_some_iff.1 hi).1.trans_le hle)]
    have hret := (hinv.workers w hw).joins (by omega)
    exact ⟨hret, by rw [(hinv.workers w hw).ends, hret, Worker.endsAt], hjoins⟩
  obtain ⟨hperm, hempty, horder⟩ := drained (reachable_open h) fun w hw => (hthreads w hw).1
  exact ⟨hperm, horder, hthreads, hempty⟩

theorem Crew.Done.pending {c : Crew τ} (h : c.Done) : c.queued = [] ∧ c.running = [] := by
  refine ⟨?_, running_of_returned fun w hw => (h.threads w hw).1⟩
  rw [queued, h.empty, List.reduceOption_nil]

namespace Pools

variable {P : Program τ} {s : Pools τ}

theorem retired_done (hP : P.Layered) (h : (lts P).Reachable s) : ∀ c ∈ s.retired, c.Done := by
  refine h.invariant (P := fun s => ∀ c ∈ s.retired, Crew.Done c) ?_ ?_
  · rintro s rfl c hc
    cases hc
  · intro s k s' hreach ih hstep
    cases step_cases hstep with
    | joined hk hsize hle =>
      have hinv := inv (.layered hP) hreach
      obtain rfl := hinv.eq_main hk fun _ => nofun
      have hmain := hinv.mainAt hk
      rw [hsize] at hmain
      rw [retired_setFrame, retired_retire, List.forall_mem_cons]
      exact ⟨.of_joined (unsignalled hP hreach _) hmain.joining_inv.1 hle, ih⟩
    | finish =>
      rw [retired_finish]
      exact ih
    | _ => exact ih

/-! ### The end of the program -/

theorem total_conserved (hP : P.Layered) (h : (lts P).Reachable s) :
    Total (toCall P) (asked P) (asked P) s (P.allTasks : Multiset τ) := by
  refine h.invariant (P := fun s => Total (toCall P) (asked P) (asked P) s ↑P.allTasks) ?_ ?_
  · rintro s rfl
    exact Total.start (conserved hP).idle (conserved hP).fresh
  · intro s k s' hreach ih hstep
    obtain ⟨t, ht, rfl⟩ := (conserved hP).step (inv (.layered hP) hreach) ih hstep
    exact ht

/-- When the main thread is at its end, all pools were destroyed and nobody has anything to do. -/
theorem Inv.finished {ok : Nat → τ → Prop} (h : Inv P ok s) (hfin : s.Finished) :
    s.size = 0 ∧ (∀ p, s.crews p = Crew.start 0) ∧ ∀ k, s.frames k = .idle := by
  have hsize : s.size = 0 := (h.mainAt hfin).nil_inv
  have hcrews : ∀ p, s.crews p = Crew.start 0 := fun p => h.beyond p (by omega)
  refine ⟨hsize, hcrews, fun k => ?_⟩
  cases k with
  | main => exact hfin
  | worker p i =>
    apply h.idle
    rw [hcrews p]
    rfl

theorem executed_perm (hP : P.Layered) (h : (lts P).Reachable s) (hfin : s.Finished) :
    ((s.retired.flatMap Crew.executed).map Job.task).Perm P.allTasks := by
  have hdone := retired_done hP h
  obtain ⟨-, hcrews, hframes⟩ := (inv (.layered hP) h).finished hfin
  obtain ⟨a, b, ha, hb, hsum⟩ := total_conserved hP h
  have ha0 : a = 0 := ha.unique (.of_zero fun k => by rw [hframes]; rfl)
  have hb0 : b = 0 := hb.unique (.of_zero fun p => by rw [hcrews]; exact (conserved hP).fresh)
  have hretired : ∀ l : List (Crew (Job τ)), (∀ c ∈ l, c.Done) →
      (l.map (asked P)).sum = ((l.flatMap Crew.executed).map Job.task : Multiset τ) := by
    intro l hl
    induction l with
    | nil => rfl
    | cons c l ih =>
      rw [List.forall_mem_cons] at hl
      obtain ⟨hc, hl⟩ := hl
      have hload : c.load (fun j => (P.below j.task : Multiset τ)) (fun _ => 0) = 0 := by
        rw [Crew.load, hc.pending.1, hc.pending.2]
        rfl
      rw [List.map_cons, List.sum_cons, ih hl, asked, hload, add_zero, List.flatMap_cons,
        List.map_append, ← Multiset.coe_add]
      congr 1
      exact Multiset.coe_eq_coe.2 (hc.executed.map _).symm
  rw [ha0, hb0, zero_add, zero_add, hretired _ hdone] at hsum
  exact (Multiset.coe_eq_coe.1 hsum).symm

/-- **Every task is executed exactly once.** When the main thread of a layered program has left its
scopes, the tasks that its code asks for, directly or through other tasks, have been executed, each
as often as it was asked for and no others; each pool has executed what was dispatched to it, in the
order of the dispatches when it has one thread, and its threads have returned and were joined. -/
theorem all_executed (hP : P.Layered) (h : (lts P).Reachable s) (hfin : s.Finished) :
    ((s.retired.flatMap Crew.executed).map Job.task).Perm P.allTasks ∧
      (∀ c ∈ s.retired, c.Done) ∧ s.size = 0 :=
  ⟨executed_perm hP h hfin, retired_done hP h, ((inv (.layered hP) h).finished hfin).1⟩

/-- One worker whose task has the manager increment one element. -/
theorem all_executed_one : ∃ s : Pools MapTask, (lts (testDispatchN 1 1 1 true)).Reachable s ∧
    s.Finished ∧ ((s.retired.flatMap Crew.executed).map Job.task).Perm
      [.workerFunc 0, .increment 0] := by
  have hrun : run (testDispatchN 1 1 1 true) [.main, .main, .main, .worker 1 0, .worker 1 0,
      .worker 0 0, .worker 0 0, .worker 1 0, .main, .worker 1 0, .main, .main, .main, .main, .main,
      .worker 0 0, .main, .main] = some _ := rfl
  have hreach := reachable_of_run hrun
  exact ⟨_, hreach, rfl, (all_executed (layered_testDispatchN 1 1 1 true) hreach rfl).1⟩

/-! ### Tasks that are waited for -/

theorem owed_total (hP : P.Layered) (h : (lts P).Reachable s) (k : Caller) :
    HasTotal (Crew.owed k) s.crews (s.frames k).owed := by
  obtain ⟨t, ht, hsum⟩ := (inv (.layered hP) h).owed k
  have hretired : (s.retired.map (Crew.owed k)).sum = 0 := by
    apply List.sum_eq_zero
    intro x hx
    obtain ⟨c, hc, rfl⟩ := List.mem_map.1 hx
    obtain ⟨hqueued, hrunning⟩ := (retired_done hP h c hc).pending
    rw [Crew.owed, Crew.load, hqueued, hrunning]
    rfl
  rw [hretired, add_zero] at hsum
  rwa [← hsum]

theorem owed_eq_zero {k : Caller} (ht : HasTotal (Crew.owed k) s.crews 0) (p : Nat) :
    (s.crews p).owed k = 0 := by
  obtain ⟨rest, hrest, -⟩ := ht.split p
  apply Multiset.le_zero.1
  rw [hrest]
  exact Multiset.le_add_right _ _

theorem eq_zero_of_add_eq_zero {x y : Multiset τ} (h : x + y = 0) : x = 0 ∧ y = 0 :=
  ⟨Multiset.le_zero.1 (h ▸ Multiset.le_add_right x y),
    Multiset.le_zero.1 (h ▸ Multiset.le_add_left y x)⟩

theorem add_eq_singleton {x y : Multiset τ} {t : τ} (h : x + y = {t}) :
    x = {t} ∧ y = 0 ∨ x = 0 ∧ y = {t} := by
  have hleft : ∀ {x y : Multiset τ}, x + y = {t} → t ∈ x → x = {t} ∧ y = 0 := by
    intro x y h ht
    obtain ⟨rest, rfl⟩ := Multiset.exists_cons_of_mem ht
    rw [Multiset.cons_add, ← Multiset.cons_zero, Multiset.cons_inj_right] at h
    obtain ⟨rfl, rfl⟩ := eq_zero_of_add_eq_zero h
    exact ⟨rfl, rfl⟩
  obtain ht | ht := Multiset.mem_add.1 (h ▸ Multiset.mem_singleton_self t)
  · exact .inl (hleft h ht)
  · exact .inr (hleft ((add_comm y x).trans h) ht).symm

theorem owed_unique {k : Caller} {t : τ} (ht : HasTotal (Crew.owed k) s.crews {t}) :
    ∃ p, (s.crews p).owed k = {t} ∧ ∀ q, q ≠ p → (s.crews q).owed k = 0 := by
  obtain ⟨p, hp⟩ := ht.mem (Multiset.mem_singleton_self t)
  obtain ⟨rest, hrest, hset⟩ := ht.split p
  obtain ⟨hone, rfl⟩ | ⟨hnone, -⟩ := add_eq_singleton hrest.symm
  · refine ⟨p, hone, fun q hq => ?_⟩
    have hzero := hset (Crew.start 0)
    rw [Crew.owed, Crew.load_start, add_zero] at hzero
    have hq0 := owed_eq_zero (s := s.setCrew p (Crew.start 0)) hzero q
    rwa [crews_setCrew, Function.update_of_ne hq] at hq0
  · rw [hnone] at hp
    exact absurd hp (Multiset.notMem_zero t)

theorem owed_of_awaited (hP : P.Layered) (h : (lts P).Reachable s) {k : Caller} {t : τ}
    (hk : (s.frames k).awaited = some t) :
    ∃ p, (s.crews p).owed k = {t} ∧ ∀ q, q ≠ p → (s.crews q).owed k = 0 := by
  have ht := owed_total hP h k
  rw [Frame.owed, hk] at ht
  exact owed_unique ht

theorem executed_of_owed {c : Crew (Job τ)} (h : c.Inv) {k : Caller} (hk : c.owed k = 0) :
    (c.executed.filter fun j => j.frame = some k).Perm
      (c.dispatched.filter fun j => j.frame = some k) := by
  have hnone : ∀ j ∈ c.running ++ c.queued, ¬ (decide (j.frame = some k) = true) := by
    intro j hj hframe
    have hmem : j.task ∈ c.owed k := by
      rw [Crew.mem_owed, Crew.mem_pending, ← of_decide_eq_true hframe]
      exact (List.mem_append.1 hj).symm
    rw [hk] at hmem
    exact Multiset.notMem_zero _ hmem
  have hperm := h.accounted.filter fun j => j.frame = some k
  rw [Crew.accepted, ← Crew.queued, List.append_assoc, List.filter_append,
    List.filter_eq_nil_iff.2 hnone, List.append_nil] at hperm
  exact hperm

theorem retired_crew (h : (lts P).Reachable s) :
    ∀ c ∈ s.retired, ∃ c', (Crew.lts (Job τ)).Reachable c' ∧ c = c'.free := by
  refine h.invariant (P := fun s => ∀ c ∈ s.retired, ∃ c', (Crew.lts (Job τ)).Reachable c' ∧
    c = c'.free) ?_ ?_
  · rintro s rfl c hc
    cases hc
  · intro s k s' hreach ih hstep
    cases step_cases hstep with
    | joined =>
      rw [retired_setFrame, retired_retire, List.forall_mem_cons]
      exact ⟨⟨_, (inv (.any P) hreach).crew _, rfl⟩, ih⟩
    | finish =>
      rw [retired_finish]
      exact ih
    | _ => exact ih

theorem owed_le_sum {l : List (Crew (Job τ))} {c : Crew (Job τ)} (hc : c ∈ l) (k : Caller) :
    c.owed k ≤ (l.map (Crew.owed k)).sum := by
  obtain ⟨l₁, l₂, rfl⟩ := List.append_of_mem hc
  rw [List.map_append, List.map_cons, List.sum_append, List.sum_cons]
  exact (Multiset.le_add_right _ _).trans (Multiset.le_add_left _ _)

/-- A wrapper that is queued or running refers to the frame of a thread that waits for its task. -/
theorem awaited_of_pending (h : (lts P).Reachable s) {k : Caller} {c : Crew (Job τ)}
    (hc : c ∈ s.retired ∨ ∃ p, s.crews p = c) {j : Job τ} (hj : j ∈ c.pending)
    (hframe : j.frame = some k) : (s.frames k).awaited = some j.task := by
  obtain ⟨x, hx, hsum⟩ := (inv (.any P) h).owed k
  have hle : c.owed k ≤ (s.frames k).owed := by
    rw [← hsum]
    obtain hc | ⟨p, rfl⟩ := hc
    · exact (owed_le_sum hc k).trans (Multiset.le_add_left _ _)
    · obtain ⟨rest, hrest, -⟩ := hx.split p
      exact hrest ▸ (Multiset.le_add_right _ _).trans (Multiset.le_add_right _ _)
  rw [← Frame.mem_owed]
  apply Multiset.mem_of_le hle
  rw [Crew.mem_owed, ← hframe]
  exact hj

/-- **`dispatch_returning()` is safe.** Whatever the tasks of a program call, a wrapper that is
queued or running refers to the frame of a thread that is still waiting for just this task; a thread
waits for one wrapper, which is in one pool that is alive or was left behind by one that was
destroyed; and when it does not wait, all tasks that it ever handed over in this way have been
executed, each exactly once. In a layered program no wrapper is left behind. -/
theorem returning_safe (h : (lts P).Reachable s) (k : Caller) :
    (∀ c, (c ∈ s.retired ∨ ∃ p, s.crews p = c) → ∀ j ∈ c.pending, j.frame = some k →
      (s.frames k).awaited = some j.task) ∧
    (∀ t, (s.frames k).awaited = some t →
      (∃ p, (s.crews p).owed k = {t} ∧ (∀ q, q ≠ p → (s.crews q).owed k = 0) ∧
        ∀ c ∈ s.retired, c.owed k = 0) ∨
      ¬ P.Layered ∧ (∀ p, (s.crews p).owed k = 0) ∧
        (s.retired.map (Crew.owed k)).sum = {t}) ∧
    ((s.frames k).awaited = none → ∀ c, (c ∈ s.retired ∨ ∃ p, s.crews p = c) →
      (c.executed.filter fun j => j.frame = some k).Perm
        (c.dispatched.filter fun j => j.frame = some k)) := by
  obtain ⟨x, hx, hsum⟩ := (inv (.any P) h).owed k
  have hlive : ∀ p, (s.crews p).owed k ≤ x := fun p => by
    obtain ⟨rest, hrest, -⟩ := hx.split p
    exact hrest ▸ Multiset.le_add_right _ _
  refine ⟨fun c hc j hj hframe => awaited_of_pending h hc hj hframe, fun t hk => ?_,
    fun hk c hc => ?_⟩
  · rw [Frame.owed, hk] at hsum
    obtain ⟨rfl, hretired⟩ | ⟨rfl, hretired⟩ := add_eq_singleton hsum
    · obtain ⟨p, hp, hothers⟩ := owed_unique hx
      refine .inl ⟨p, hp, hothers, fun c hc => Multiset.le_zero.1 ?_⟩
      exact hretired ▸ owed_le_sum hc k
    · refine .inr ⟨fun hP => ?_, fun p => Multiset.le_zero.1 (hlive p), hretired⟩
      obtain ⟨p, hp, -⟩ := owed_of_awaited hP h hk
      have hmem := hlive p
      rw [hp, Multiset.singleton_le] at hmem
      exact Multiset.notMem_zero t hmem
  · rw [Frame.owed, hk] at hsum
    obtain ⟨rfl, hretired⟩ := eq_zero_of_add_eq_zero hsum
    obtain hc | ⟨p, rfl⟩ := hc
    · obtain ⟨c', hreach, rfl⟩ := retired_crew h c hc
      refine executed_of_owed (Crew.inv hreach) (k := k) (Multiset.le_zero.1 ?_)
      exact hretired ▸ owed_le_sum hc k
    · exact executed_of_owed (Crew.inv ((inv (.any P) h).crew p)) (Multiset.le_zero.1 (hlive p))

/-- The worker waits for the increment, which is still queued. -/
theorem returning_safe_one : ∃ s : Pools MapTask, (lts (testDispatchN 1 1 1 true)).Reachable s ∧
    (s.frames (.worker 1 0)).awaited = some (.increment 0) ∧
    ∃ p, (s.crews p).owed (.worker 1 0) = {.increment 0} := by
  have hrun : run (testDispatchN 1 1 1 true)
      [.main, .main, .main, .worker 1 0, .worker 1 0] = some _ := rfl
  have hreach := reachable_of_run hrun
  obtain ⟨p, hp, -⟩ | ⟨hnot, -⟩ := (returning_safe hreach (.worker 1 0)).2.1 _ rfl
  · exact ⟨_, hreach, rfl, p, hp⟩
  · exact absurd (layered_testDispatchN 1 1 1 true) hnot

end Pools

end Nanonet
