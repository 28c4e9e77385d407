import Nanonet.Dispatch.Crew

/-!
# What is left when the threads have returned

A crew whose threads have all returned has read every marker. What it has not executed is what is
still queued; this is nothing when no task was dispatched after the last marker (`drained`), and
when no task was dispatched after the first marker no thread returned while a task was queued
(`task_not_queued`).
-/

namespace Nanonet

namespace Crew

variable {τ : Type*} {c : Crew τ}

theorem Inv.markers_of_returned (h : c.Inv)
    (hfifo : c.tasks.popped ++ c.tasks.content = c.tasks.pushed)
    (hret : ∀ w ∈ c.threads, w.pc = .returned) :
    markers c.tasks.content = 0 ∧ markers c.tasks.pushed = c.threads.length := by
  have hends : c.threads.map Worker.ends = List.replicate c.threads.length 1 := by
    rw [List.eq_replicate_iff, List.length_map]
    refine ⟨rfl, fun n hn => ?_⟩
    obtain ⟨w, hw, rfl⟩ := List.mem_map.1 hn
    rw [(h.workers w hw).ends, hret w hw, Worker.endsAt]
  have htaken : c.threads.length = markers c.tasks.popped := by
    rw [← h.taken, hends, List.sum_replicate_nat, Nat.mul_one]
  have hsum : markers c.tasks.popped + markers c.tasks.content = markers c.tasks.pushed := by
    rw [← hfifo, markers_append]
  have hle := h.signalled
  omega

theorem running_of_returned (hret : ∀ w ∈ c.threads, w.pc = .returned) : c.running = [] := by
  rw [running, List.filterMap_eq_nil_iff]
  intro w hw
  exact Worker.task?_eq_none (by simp [hret w hw])

/-- What was accepted and not executed is still queued, and nothing else is. -/
theorem executed_append_queued (h : (lts τ).Reachable c)
    (hret : ∀ w ∈ c.threads, w.pc = .returned) :
    markers c.tasks.content = 0 ∧
      (c.executed ++ c.tasks.content.reduceOption).Perm c.dispatched := by
  have haccounted := (inv h).accounted
  rw [accepted, running_of_returned hret, List.append_nil] at haccounted
  exact ⟨((inv h).markers_of_returned (fifo_order h) hret).1, haccounted⟩

/-! ### No dispatch after the last marker -/

/-- There is a thread that no marker was queued for yet, unless there are no threads at all. -/
def Open (c : Crew τ) : Prop := c.threads ≠ [] → markers c.tasks.pushed < c.threads.length

theorem last_is_marker (h : ((lts τ).restrict (DispatchOnly Open)).Reachable c) :
    markers c.tasks.pushed = c.threads.length → ∀ e ∈ c.tasks.pushed.getLast?, e = none := by
  refine h.invariant (P := fun c => markers c.tasks.pushed = c.threads.length →
    ∀ e ∈ c.tasks.pushed.getLast?, e = none) ?_ ?_
  · rintro c ⟨n, rfl⟩ - e he
    cases he
  · rintro c a c' - hlast ⟨hguard, hstep⟩
    cases hstep with
    | dispatch t hne =>
      intro hall
      have hopen := hguard hne
      simp only [Crew.dispatch, Channel.push, markers_append, markers_cons_some,
        markers_nil] at hall
      omega
    | execute t _ => exact hlast
    | signal _ =>
      intro _ e he
      rw [Crew.signal, Channel.push, List.getLast?_concat] at he
      cases he
      rfl
    | work hwork =>
      obtain ⟨hpushed, hlen⟩ := pushed_of_work hwork
      rw [hpushed, hlen]
      exact hlast
    | join hjoin =>
      obtain ⟨hpushed, hlen⟩ := pushed_of_join hjoin
      rw [hpushed, hlen]
      exact hlast
    | free => exact hlast

theorem drained (h : ((lts τ).restrict (DispatchOnly Open)).Reachable c)
    (hret : ∀ w ∈ c.threads, w.pc = .returned) :
    c.executed.Perm c.dispatched ∧ c.tasks.content = [] ∧
      (c.threads.length ≤ 1 → c.executed = c.dispatched) := by
  have hreach := h.of_restrict
  have hinv := inv hreach
  have hfifo := fifo_order hreach
  obtain ⟨hzero, hall⟩ := hinv.markers_of_returned hfifo hret
  have hlast := last_is_marker h hall
  rw [← hfifo] at hlast
  have hnil : c.tasks.content = [] := eq_nil_of_markers_eq_zero hlast hzero
  have haccepted : c.accepted = c.executed := by
    simp [accepted, running_of_returned hret, hnil]
  refine ⟨?_, hnil, fun hone => ?_⟩
  · rw [← haccepted]
    exact hinv.accounted
  · rw [← haccepted]
    exact hinv.inOrder hone

/-! ### No dispatch after the first marker -/

def Unsignalled (c : Crew τ) : Prop := markers c.tasks.pushed = 0

/-- The tasks were queued first, then the markers. -/
def TasksFirst (l : List (TaskAndContinue τ)) : Prop :=
  ∃ (ts : List τ) (k : Nat), l = ts.map some ++ List.replicate k none

theorem TasksFirst.concat_none {l : List (TaskAndContinue τ)} (h : TasksFirst l) :
    TasksFirst (l ++ [none]) := by
  obtain ⟨ts, k, rfl⟩ := h
  exact ⟨ts, k + 1, by rw [List.append_assoc, List.replicate_succ']⟩

theorem TasksFirst.concat_some {l : List (TaskAndContinue τ)} (h : TasksFirst l)
    (hzero : markers l = 0) (t : τ) : TasksFirst (l ++ [some t]) := by
  obtain ⟨ts, k, rfl⟩ := h
  cases k with
  | zero => exact ⟨ts ++ [t], 0, by simp⟩
  | succ k => simp [List.replicate_succ] at hzero

theorem tasksFirst (h : ((lts τ).restrict (DispatchOnly Unsignalled)).Reachable c) :
    TasksFirst c.tasks.pushed := by
  refine h.invariant (P := fun c => TasksFirst c.tasks.pushed) ?_ ?_
  · rintro c ⟨n, rfl⟩
    exact ⟨[], 0, rfl⟩
  · rintro c a c' - hfirst ⟨hguard, hstep⟩
    cases hstep with
    | dispatch t _ => exact hfirst.concat_some hguard t
    | execute t _ => exact hfirst
    | signal _ => exact hfirst.concat_none
    | work hwork =>
      rw [(pushed_of_work hwork).1]
      exact hfirst
    | join hjoin =>
      rw [(pushed_of_join hjoin).1]
      exact hfirst
    | free => exact hfirst

theorem task_not_queued (h : ((lts τ).restrict (DispatchOnly Unsignalled)).Reachable c)
    {w : Worker τ} (hw : w ∈ c.threads) (hret : w.pc = .returned) (t : τ) :
    some t ∉ c.tasks.content := by
  have hinv := inv h.of_restrict
  obtain ⟨ts, k, hpushed⟩ := tasksFirst h
  rw [← fifo_order h.of_restrict] at hpushed
  refine some_not_mem_of_none_mem hpushed (none_mem_of_markers_pos ?_) t
  have hends : w.ends = 1 := by rw [(hinv.workers w hw).ends, hret, Worker.endsAt]
  obtain ⟨ws, ws', hthreads⟩ := List.append_of_mem hw
  rw [← hinv.taken, hthreads, List.map_append, List.map_cons, List.sum_append, List.sum_cons, hends]
  omega

theorem reachable_open (h : ((lts τ).restrict (DispatchOnly Unsignalled)).Reachable c) :
    ((lts τ).restrict (DispatchOnly Open)).Reachable c := by
  apply h.restrict_mono
  intro c a hguard
  cases a with
  | dispatch t =>
    intro hne
    have hzero : markers c.tasks.pushed = 0 := hguard
    have hpos := List.length_pos_iff.2 hne
    omega
  | _ => trivial

end Crew

end Nanonet
