import Nanonet.Dispatch.PoolsDone

/-!
# A layered program comes to its end

Every step of a thread lowers what is left to do (`Pools.lowered`), so that no run is longer than
`Program.steps`, whatever the schedule. And some thread can always take a step until the main thread
has left its scopes: by induction on the level, a pool all older pools of which are quiet is quiet
itself when nothing can move (`Pools.quiet`). So threads that wait for each other, in
`dispatch_returning()`, in `pop()` or in `join()`, never block the program.

The layers are needed: when all threads of a pool wait for tasks of their own pool, none of them
ever comes back (`Pools.own_pool_blocks`).
-/

namespace Nanonet

variable {τ : Type*}

/-! ### What is left to do -/

namespace Program

/-- The steps that a statement takes, in the thread that executes it and in the pools. -/
def stmtSteps (P : Program τ) : Stmt τ → Nat
  | .construct n => 1 + 3 * n
  | .call c => 3 * (P.tasksOf c.task).length
  | .signalling _ => 2
  | .joining _ => 1

/-- The steps that the program takes at most. -/
def steps (P : Program τ) : Nat := (P.main.map P.stmtSteps).sum

variable {P : Program τ}

theorem stmtSteps_call (hP : P.Layered) (b : PoolCall τ) :
    P.stmtSteps (.call b) = 3 + 3 * (P.below b.task).length := by
  rw [stmtSteps, tasksOf_eq hP, List.length_cons]
  omega

theorem stmtSteps_calls (t : τ) :
    (((P.body t).map .call).map P.stmtSteps).sum = 3 * (P.below t).length := by
  rw [below]
  induction P.body t with
  | nil => rfl
  | cons c cs ih =>
    rw [List.map_cons, List.map_cons, List.sum_cons, ih, List.flatMap_cons, List.length_append,
      stmtSteps]
    omega

end Program

namespace Pools

variable {P : Program τ} {s s' : Pools τ} {k : Caller}

/-- The steps that the code of a frame takes. -/
def codeSteps (P : Program τ) (f : Frame τ) : Nat := (f.todo.map P.stmtSteps).sum

/-- The steps that its jobs and its destructor take: each marker is queued and taken, each thread is
joined, each job is taken and finished. -/
def crewSteps (P : Program τ) (c : Crew (Job τ)) : Nat :=
  2 * (c.threads.length - markers c.tasks.pushed) + markers c.tasks.content +
    c.joins.countP (· == 0) + c.load (fun j => 2 + 3 * (P.below j.task).length) fun _ => 1

theorem codeSteps_cons (x : Stmt τ) (rest : List (Stmt τ)) (a : Option τ) :
    codeSteps P ⟨x :: rest, a⟩ = P.stmtSteps x + codeSteps P ⟨rest, none⟩ := by
  rw [codeSteps, List.map_cons, List.sum_cons]
  rfl

theorem codeSteps_body (t : τ) (rest : List (Stmt τ)) :
    codeSteps P ⟨(P.body t).map .call ++ rest, none⟩ =
      3 * (P.below t).length + codeSteps P ⟨rest, none⟩ := by
  rw [codeSteps, List.map_append, List.sum_append, Program.stmtSteps_calls]
  rfl

theorem crewSteps_start (n : Nat) : crewSteps P (Crew.start n) = 3 * n := by
  rw [crewSteps, Crew.load_start, Crew.joins, Crew.start]
  simp [List.countP_replicate]
  omega

theorem countP_join {l : List Nat} {i : Nat} (h : l[i]? = some 0) :
    l.countP (· == 0) = (l.set i 1).countP (· == 0) + 1 := by
  obtain ⟨xs, ys, rfl, hset⟩ := exists_append_of_getElem? h
  rw [hset]
  simp
  omega

theorem lowered (hP : P.Layered) :
    Weighing P (codeSteps P) (crewSteps P) (fun _ => 0) fun a b => b < a where
  idle := rfl
  fresh := crewSteps_start 0
  add a b c h := Nat.add_lt_add_right h c
  resume _ := rfl
  construct n rest := by
    rw [codeSteps_cons, crewSteps_start, Program.stmtSteps]
    omega
  dispatch k b rest c := by
    have hrest : codeSteps P ⟨rest, b.awaited⟩ = codeSteps P ⟨rest, none⟩ := rfl
    have hmarkers : markers (c.dispatch (b.job k)).tasks.content = markers c.tasks.content := by
      simp [Crew.dispatch, Channel.push]
    have hload : (c.dispatch (b.job k)).load
          (fun j => 2 + 3 * (P.below j.task).length) (fun _ => 1) =
        2 + 3 * (P.below b.task).length +
          c.load (fun j => 2 + 3 * (P.below j.task).length) fun _ => 1 := Crew.load_dispatch _ _ c _
    have hsame := Crew.same_dispatch c (b.job k)
    rw [codeSteps_cons, Program.stmtSteps_call hP, hrest, crewSteps, crewSteps, hload, hmarkers,
      hsame.length, hsame.markers, hsame.joins]
    omega
  execute b rest c := by
    rw [codeSteps_cons, Program.stmtSteps_call hP, codeSteps_body]
    show _ + crewSteps P c < _
    omega
  signal i rest c hlt := by
    have hpushed : markers c.signal.tasks.pushed = markers c.tasks.pushed + 1 := by
      simp [Crew.signal, Channel.push]
    have hcontent : markers c.signal.tasks.content = markers c.tasks.content + 1 := by
      simp [Crew.signal, Channel.push]
    have hthreads : c.signal.threads = c.threads := rfl
    have hjoins : c.signal.joins = c.joins := rfl
    rw [codeSteps_cons, codeSteps_cons, crewSteps, crewSteps, Crew.load_signal, hpushed, hcontent,
      hthreads, hjoins, Program.stmtSteps, Program.stmtSteps]
    omega
  signalled i rest := by
    rw [codeSteps_cons, codeSteps_cons, Program.stmtSteps, Program.stmtSteps]
    omega
  join i rest c c' hjoin := by
    obtain ⟨htasks, hjoins, -⟩ := Crew.join_eq_some hjoin
    have hzero : c.joins[i]? = some 0 := by
      rw [← Crew.joinable_iff, Crew.joinable]
      rw [Crew.join] at hjoin
      split at hjoin
      · next hw => rw [hw]; rfl
      · cases hjoin
    have hcount := countP_join hzero
    rw [codeSteps_cons, codeSteps_cons, crewSteps, crewSteps, Crew.load_join _ _ hjoin, htasks,
      hjoins, (Crew.pushed_of_join hjoin).2, Program.stmtSteps, Program.stmtSteps]
    omega
  joined i rest c := by
    rw [codeSteps_cons, Program.stmtSteps]
    omega
  take i j c c' htake := by
    obtain ⟨rest, hc, hc'⟩ := htake.load (fun j => 2 + 3 * (P.below j.task).length) fun _ => 1
    have hsame := Crew.same_work htake.step
    have hbody := codeSteps_body (P := P) j.task []
    rw [List.append_nil] at hbody
    rw [hbody, crewSteps, crewSteps, hc, hc', hsame.length, hsame.markers, hsame.joins,
      htake.markers]
    show _ * _ + 0 + _ < _
    omega
  leave i c c' hleave := by
    have hsame := Crew.same_work hleave.step
    rw [crewSteps, crewSteps, hleave.load, hsame.length, hsame.markers, hsame.joins, hleave.markers]
    omega
  finish i j c c' hfinish := by
    have hsame := Crew.same_work hfinish.step
    rw [crewSteps, crewSteps, hfinish.load, hsame.length, hsame.markers, hsame.joins,
      hfinish.content]
    omega

theorem steps_le (hP : P.Layered) {ks : List Caller}
    (h : ks.foldlM (fun s k => s.step P k) (start P) = some s) : ks.length ≤ P.steps := by
  have hstart : Total (codeSteps P) (crewSteps P) (fun _ => 0) (start P) P.steps :=
    Total.start (lowered hP).idle (lowered hP).fresh
  refine Lts.Reachable.foldlM_length (A := lts P)
    (μ := Total (codeSteps P) (crewSteps P) fun _ => 0) (fun _ _ _ hstep => hstep) ?_ (.init rfl)
    hstart h
  intro s k s' n hreach hn hstep
  obtain ⟨n', hn', hlt⟩ := (lowered hP).step (inv (.layered hP) hreach) hn hstep
  exact ⟨n', hlt, hn'⟩

/-! ### When no thread can move -/

theorem step_of_todo {x : Stmt τ} {rest : List (Stmt τ)} (hk : s.frames k = ⟨x :: rest, none⟩) :
    s.step P k = s.exec P k x rest := by
  unfold step
  rw [hk]

theorem work_ne_none {p i : Nat} {c : Crew (Job τ)} (h : (s.crews p).threadFunction i = some c) :
    s.work P p i ≠ none := by
  unfold work
  rw [h]
  split
  · next hnone => cases hnone
  · split <;> simp

theorem step_of_idle {p i : Nat} (hk : s.frames (.worker p i) = .idle) {c : Crew (Job τ)}
    (h : (s.crews p).threadFunction i = some c) : s.step P (.worker p i) ≠ none := by
  unfold step
  rw [hk]
  exact work_ne_none h

theorem threadFunction_of_current {υ : Type*} {c : Crew υ} {i : Nat} {j : υ}
    (h : c.current i = some j) : ∃ c', c.threadFunction i = some c' := by
  obtain ⟨⟨pc, ends, joins⟩, hw, hj⟩ := Option.bind_eq_some_iff.1 h
  cases pc with
  | running t =>
    rw [Crew.threadFunction, hw]
    exact ⟨_, rfl⟩
  | _ => cases hj

theorem threadFunction_of_popping {υ : Type*} {c : Crew υ} {i : Nat} {w : Worker υ}
    (hw : c.threads[i]? = some w) (hpc : w.pc = .popping) (hne : c.tasks.content ≠ []) :
    ∃ c', c.threadFunction i = some c' := by
  obtain ⟨pc, ends, joins⟩ := w
  cases hpc
  rw [Crew.threadFunction, hw, Channel.pop]
  cases hcontent : c.tasks.content with
  | nil => exact absurd hcontent hne
  | cons e rest => cases e <;> exact ⟨_, rfl⟩

theorem endsAt_le {υ : Type*} (pc : WorkerPc υ) : Worker.endsAt pc ≤ 1 := by
  cases pc <;> simp [Worker.endsAt]

theorem sum_ends_le {υ : Type*} {l : List (Worker υ)} (h : ∀ w ∈ l, w.Inv) :
    (l.map Worker.ends).sum ≤ l.length := by
  induction l with
  | nil => exact Nat.le_refl 0
  | cons w l ih =>
    rw [List.forall_mem_cons] at h
    have hle := ih h.2
    have hw := endsAt_le w.pc
    rw [← h.1.ends] at hw
    rw [List.map_cons, List.sum_cons, List.length_cons]
    omega

theorem content_of_unreturned {υ : Type*} {c : Crew υ} (h : c.Inv)
    (hfifo : c.tasks.popped ++ c.tasks.content = c.tasks.pushed)
    (hall : markers c.tasks.pushed = c.threads.length) {w : Worker υ} (hw : w ∈ c.threads)
    (hpc : w.pc ≠ .returned) : c.tasks.content ≠ [] := by
  intro hnil
  have htaken := h.taken
  rw [hnil, List.append_nil] at hfifo
  rw [hfifo, hall] at htaken
  -- the thread itself has taken none
  have hends : w.ends = 0 := by
    rw [(h.workers w hw).ends]
    cases hw : w.pc with
    | returned => exact absurd hw hpc
    | _ => rfl
  have hworkers := h.workers
  obtain ⟨ws, ws', hthreads⟩ := List.append_of_mem hw
  rw [hthreads, List.forall_mem_append, List.forall_mem_cons] at hworkers
  have hws := sum_ends_le hworkers.1
  have hws' := sum_ends_le hworkers.2.2
  rw [hthreads, List.map_append, List.map_cons, List.sum_append, List.sum_cons, hends,
    List.length_append, List.length_cons] at htaken
  omega

section stuck

variable (hP : P.Layered) (h : (lts P).Reachable s) (hstuck : ∀ k, s.step P k = none)

include hP h hstuck

theorem awaits_of_current {p i : Nat} {j : Job τ} (hj : (s.crews p).current i = some j) :
    ∃ t, (s.frames (.worker p i)).awaited = some t := by
  have hinv := inv (.layered hP) h
  rcases hframe : s.frames (.worker p i) with ⟨todo, _ | t⟩
  · exfalso
    cases todo with
    | nil =>
      obtain ⟨c, hc⟩ := threadFunction_of_current hj
      exact step_of_idle hframe hc (hstuck _)
    | cons x rest =>
      obtain ⟨b, rfl, -⟩ := hinv.calls p i x (by rw [hframe]; exact List.mem_cons_self)
      have hnone := hstuck (.worker p i)
      rw [step_of_todo hframe, exec, if_pos (hinv.callee hframe).1] at hnone
      cases hnone
  · exact ⟨t, rfl⟩

theorem queued_of_running {p : Nat} (hrunning : (s.crews p).running = []) :
    (s.crews p).queued = [] := by
  have hinv := inv (.layered hP) h
  have hnone : ∀ i, (s.crews p).current i = none := by
    intro i
    by_contra hne
    obtain ⟨j, hj⟩ := Option.ne_none_iff_exists'.1 hne
    have hmem := Crew.mem_running hj
    rw [hrunning] at hmem
    cases hmem
  by_contra hne
  have hcontent : (s.crews p).tasks.content ≠ [] := by
    intro hnil
    rw [Crew.queued, hnil] at hne
    exact hne rfl
  -- no thread waits for the queue, so all have returned
  have hret : ∀ w ∈ (s.crews p).threads, w.pc = .returned := by
    intro w hw
    obtain ⟨i, hi⟩ := List.mem_iff_getElem?.1 hw
    cases hpc : w.pc with
    | popping =>
      obtain ⟨c, hc⟩ := threadFunction_of_popping hi hpc hcontent
      exact absurd (hstuck _) (step_of_idle (hinv.idle p i (hnone i)) hc)
    | running j =>
      have hcurrent := hnone i
      rw [Crew.current_eq hi, Worker.task?_eq_some hpc] at hcurrent
      cases hcurrent
    | returned => rfl
  exact hcontent (Crew.drained (Crew.reachable_open (unsignalled hP h p)) hret).2.1

theorem quiet (p : Nat) : (s.crews p).pending = 0 := by
  have hinv := inv (.layered hP) h
  induction p using Nat.strong_induction_on with
  | _ p ih =>
    have hrunning : (s.crews p).running = [] := by
      by_contra hne
      obtain ⟨j, hj⟩ := List.exists_mem_of_ne_nil _ hne
      obtain ⟨i, hi⟩ := Crew.exists_current hj
      obtain ⟨t, ht⟩ := awaits_of_current hP h hstuck hi
      -- the thread waits for a wrapper in an older pool, where nothing is left
      have hlt : P.home t < p := hinv.awaits p i t ht
      obtain ⟨q, hq, -⟩ := owed_of_awaited hP h ht
      have hmem : t ∈ (s.crews q).owed (.worker p i) := by
        rw [hq]
        exact Multiset.mem_singleton_self t
      rw [Crew.mem_owed] at hmem
      have hhome : P.home t = q := hinv.home q _ hmem
      rw [ih q (by omega)] at hmem
      exact Multiset.notMem_zero _ hmem
    have hqueued := queued_of_running hP h hstuck hrunning
    rw [Crew.pending, Crew.load, hqueued, hrunning]
    rfl

theorem returned_of_signalled {p i : Nat} (hat : (s.crews p).At (s.crews p).threads.length i)
    {w : Worker (Job τ)} {n : Nat} (hw : (s.crews p).threads[n]? = some w) : w.pc = .returned := by
  have hinv := inv (.layered hP) h
  have hcrew := Crew.inv (hinv.crew p)
  have hrunning : (s.crews p).running = [] := by
    by_contra hne
    obtain ⟨j, hj⟩ := List.exists_mem_of_ne_nil _ hne
    have hmem := Crew.mem_pending.2 (.inr hj)
    rw [quiet hP h hstuck p] at hmem
    exact Multiset.notMem_zero _ hmem
  have hnone : (s.crews p).current n = none := by
    by_contra hne
    obtain ⟨j, hj⟩ := Option.ne_none_iff_exists'.1 hne
    have hmem := Crew.mem_running hj
    rw [hrunning] at hmem
    cases hmem
  cases hpc : w.pc with
  | returned => rfl
  | running j =>
    rw [Crew.current_eq hw, Worker.task?_eq_some hpc] at hnone
    cases hnone
  | popping =>
    exfalso
    have hcontent := content_of_unreturned hcrew (Crew.fifo_order (hinv.crew p)) hat.markers
      (List.mem_of_getElem? hw) (by simp [hpc])
    obtain ⟨c, hc⟩ := threadFunction_of_popping hw hpc hcontent
    exact step_of_idle (hinv.idle p n hnone) hc (hstuck _)

theorem finished_of_stuck : s.Finished := by
  have hinv := inv (.layered hP) h
  rcases hframe : s.frames .main with ⟨todo, _ | t⟩
  · cases todo with
    | nil => exact hframe
    | cons x rest =>
      exfalso
      have hnone := hstuck .main
      rw [step_of_todo hframe] at hnone
      have hmain := hinv.mainAt hframe
      cases x with
      | construct n => cases hnone
      | call b =>
        rw [exec, if_pos (hinv.callee hframe).1] at hnone
        cases hnone
      | signalling i =>
        have hpos := hmain.destructor_pos (.inl ⟨i, rfl⟩)
        obtain ⟨p, hsize⟩ := Nat.exists_eq_succ_of_ne_zero hpos.ne'
        rw [exec, hsize] at hnone
        simp only at hnone
        split at hnone <;> cases hnone
      | joining i =>
        have hpos := hmain.destructor_pos (.inr ⟨i, rfl⟩)
        obtain ⟨p, hsize⟩ := Nat.exists_eq_succ_of_ne_zero hpos.ne'
        rw [hsize] at hmain
        obtain ⟨hat, -, -⟩ := hmain.joining_inv
        rw [exec, hsize] at hnone
        simp only at hnone
        split_ifs at hnone with hlt
        have hw : (s.crews p).threads[i]? = some (s.crews p).threads[i] :=
          List.getElem?_eq_getElem hlt
        have hret := returned_of_signalled hP h hstuck hat hw
        have hjoins := hat.thread hw
        rw [if_neg (Nat.lt_irrefl i)] at hjoins
        rw [Option.map_eq_none_iff, Crew.join, hw] at hnone
        rcases hthread : (s.crews p).threads[i] with ⟨pc, ends, joins⟩
        rw [hthread] at hret hjoins hnone
        cases hret
        cases hjoins
        cases hnone
  · exfalso
    obtain ⟨q, hq, -⟩ := owed_of_awaited hP h (k := .main) (t := t) (by rw [hframe])
    have hmem : t ∈ (s.crews q).owed .main := by
      rw [hq]
      exact Multiset.mem_singleton_self t
    rw [Crew.mem_owed, quiet hP h hstuck q] at hmem
    exact Multiset.notMem_zero _ hmem

end stuck

theorem Inv.stuck {ok : Nat → τ → Prop} (h : Inv P ok s) (hfin : s.Finished) (k : Caller) :
    s.step P k = none := by
  obtain ⟨-, hcrews, hframes⟩ := h.finished hfin
  unfold step
  rw [hframes]
  cases k with
  | main => rfl
  | worker p i =>
    show s.work P p i = none
    unfold work
    rw [hcrews]
    rfl

/-- **A layered program comes to its end**, under every schedule: no run has more steps than the
program, and a run that cannot go on is at its end, with all pools destroyed. -/
theorem comes_to_end (hP : P.Layered) {ks : List Caller}
    (h : ks.foldlM (fun s k => s.step P k) (start P) = some s) :
    ks.length ≤ P.steps ∧ ((∀ k, s.step P k = none) → s.Finished ∧ s.size = 0) := by
  have hreach : (lts P).Reachable s :=
    Lts.Reachable.foldlM (A := lts P) (fun _ _ _ hstep => hstep) (.init rfl) h
  refine ⟨steps_le hP h, fun hstuck => ?_⟩
  have hfin := finished_of_stuck hP hreach hstuck
  exact ⟨hfin, ((inv (.layered hP) hreach).finished hfin).1⟩

/-- The longest runs with one worker, one task and one element have 18 steps. -/
theorem comes_to_end_one : ∃ ks : List Caller, ∃ s : Pools MapTask,
    run (testDispatchN 1 1 1 true) ks = some s ∧ ks.length = 18 ∧
      ks.length ≤ (testDispatchN 1 1 1 true).steps := by
  have hrun : run (testDispatchN 1 1 1 true) [.main, .main, .main, .worker 1 0, .worker 1 0,
      .worker 0 0, .worker 0 0, .worker 1 0, .main, .worker 1 0, .main, .main, .main, .main, .main,
      .worker 0 0, .main, .main] = some _ := rfl
  exact ⟨_, _, hrun, rfl, (comes_to_end (layered_testDispatchN 1 1 1 true) hrun).1⟩

end Pools

end Nanonet
