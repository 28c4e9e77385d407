import Mathlib.Algebra.BigOperators.Group.List.Basic
import Nanonet.Dispatch.Pools

/-!
# What one step of a program with pools can do

The step of a worker takes a job from the queue, takes an end marker, or finishes a job
(`Crew.work_cases`); with the statements of the code, the step of a thread is one of ten moves
(`Pools.step_cases`). What a crew holds is weighed by `Crew.load`, for which every operation of a
crew has one lemma.
-/

namespace Nanonet

variable {τ : Type*}

namespace Crew

variable {c c' : Crew τ} {i : Nat} {j : τ}

/-- The jobs in the queue. -/
def queued (c : Crew τ) : List τ := c.tasks.content.reduceOption

/-! ### The three steps of a worker -/

/-- Thread `i` takes the job `j` from the queue. -/
structure Takes (c c' : Crew τ) (i : Nat) (j : τ) : Prop where
  step : c.threadFunction i = some c'
  before : c.current i = none
  after : ∀ k, c'.current k = if k = i then some j else c.current k
  running : c'.running.Perm (j :: c.running)
  queued : c.queued = j :: c'.queued
  dispatched : c'.dispatched = c.dispatched
  markers : markers c'.tasks.content = markers c.tasks.content

structure Leaves (c c' : Crew τ) (i : Nat) : Prop where
  step : c.threadFunction i = some c'
  before : c.current i = none
  after : ∀ k, c'.current k = c.current k
  running : c.running.Perm c'.running
  queued : c.queued = c'.queued
  dispatched : c'.dispatched = c.dispatched
  markers : markers c.tasks.content = markers c'.tasks.content + 1

/-- Thread `i` comes back from the job `j`. -/
structure Finishes (c c' : Crew τ) (i : Nat) (j : τ) : Prop where
  step : c.threadFunction i = some c'
  before : c.current i = some j
  after : ∀ k, c'.current k = if k = i then none else c.current k
  running : c.running.Perm (j :: c'.running)
  queued : c.queued = c'.queued
  dispatched : c'.dispatched = c.dispatched
  content : c'.tasks.content = c.tasks.content

theorem current_set {l : List (Worker τ)} {w w' : Worker τ} (hi : l[i]? = some w) (k : Nat) :
    (l.set i w')[k]?.bind Worker.task? = if k = i then w'.task? else l[k]?.bind Worker.task? := by
  obtain ⟨hlt, -⟩ := List.getElem?_eq_some_iff.1 hi
  by_cases hk : k = i
  · rw [hk, if_pos rfl, List.getElem?_set_self hlt, Option.bind_some]
  · rw [if_neg hk, List.getElem?_set_ne (Ne.symm hk)]

theorem running_set {l : List (Worker τ)} {w : Worker τ} (hi : l[i]? = some w) :
    ∃ rest, (l.filterMap Worker.task?).Perm (w.task?.toList ++ rest) ∧
      ∀ w' : Worker τ, ((l.set i w').filterMap Worker.task?).Perm (w'.task?.toList ++ rest) := by
  obtain ⟨xs, ys, rfl, hset⟩ := exists_append_of_getElem? hi
  refine ⟨xs.filterMap Worker.task? ++ ys.filterMap Worker.task?, ?_, fun w' => ?_⟩
  · have hrunning := running_of_threads (c := ⟨⟨[], [], []⟩, xs ++ w :: ys, [], [], false⟩) rfl
    rw [running] at hrunning
    rw [hrunning]
    exact List.perm_append_comm_assoc _ _ _
  · have hrunning := running_of_threads (c := ⟨⟨[], [], []⟩, xs ++ w' :: ys, [], [], false⟩) rfl
    rw [running] at hrunning
    rw [hset, hrunning]
    exact List.perm_append_comm_assoc _ _ _

theorem current_eq {w : Worker τ} (hi : c.threads[i]? = some w) : c.current i = w.task? := by
  rw [current, hi, Option.bind_some]

theorem work_cases (h : c.threadFunction i = some c') :
    (∃ j, c.Takes c' i j) ∨ c.Leaves c' i ∨ ∃ j, c.Finishes c' i j := by
  have hstep := h
  rw [threadFunction] at h
  split at h
  · next ends joins hw =>
    have hbefore : c.current i = none := current_eq hw
    obtain ⟨others, hrunning, hset⟩ := running_set hw
    split at h
    · next t tasks hpop =>
      obtain ⟨rest, hcontent, rfl⟩ := Channel.pop_eq_some hpop
      cases h
      refine .inl ⟨t, hstep, hbefore, current_set hw, ?_, ?_, rfl, ?_⟩
      · exact (hset ⟨.running t, ends, joins⟩).trans (hrunning.symm.cons t)
      · rw [queued, hcontent]
        rfl
      · rw [hcontent, markers_cons_some]
    · next tasks hpop =>
      obtain ⟨rest, hcontent, rfl⟩ := Channel.pop_eq_some hpop
      cases h
      refine .inr (.inl ⟨hstep, hbefore, fun k => ?_, ?_, ?_, rfl, ?_⟩)
      · rw [current, current_set hw]
        split
        · next hk => rw [hk, hbefore]; rfl
        · rfl
      · exact hrunning.trans (hset ⟨.returned, ends + 1, joins⟩).symm
      · rw [queued, hcontent]
        rfl
      · rw [hcontent, markers_cons_none]
    · cases h
  · next t ends joins hw =>
    cases h
    obtain ⟨others, hrunning, hset⟩ := running_set hw
    refine .inr (.inr ⟨t, hstep, current_eq hw, current_set hw, ?_, rfl, rfl, rfl⟩)
    exact hrunning.trans ((hset ⟨.popping, ends, joins⟩).symm.cons t)
  · cases h

/-! ### The weight of a crew -/

section load

variable {M : Type*} [AddCommMonoid M] (wq wr : τ → M)

/-- What the queued and the running jobs weigh together. -/
def load (c : Crew τ) : M := (c.queued.map wq).sum + (c.running.map wr).sum

theorem load_start (n : Nat) : load wq wr (Crew.start n) = 0 := by
  have hrunning : (Crew.start n : Crew τ).running = [] := by
    simp [running, Crew.start, Worker.task?]
  rw [load, hrunning]
  simp [queued, Crew.start]

theorem load_dispatch (c : Crew τ) (j : τ) : load wq wr (c.dispatch j) = wq j + load wq wr c := by
  have hqueued : (c.dispatch j).queued = c.queued ++ [j] := by
    simp [queued, Crew.dispatch, Channel.push, List.reduceOption_append]
  rw [load, hqueued, List.map_append, List.sum_append, List.map_singleton, List.sum_singleton,
    add_comm (c.queued.map wq).sum, add_assoc]
  rfl

theorem load_execute (c : Crew τ) (j : τ) : load wq wr (c.execute j) = load wq wr c := rfl

theorem load_signal (c : Crew τ) : load wq wr c.signal = load wq wr c := by
  have hqueued : c.signal.queued = c.queued := by
    simp [queued, Crew.signal, Channel.push, List.reduceOption_append]
  rw [load, hqueued]
  rfl

theorem load_join (h : c.join i = some c') : load wq wr c' = load wq wr c := by
  obtain ⟨ws, w, ws', hthreads, hpc, -, rfl⟩ := join_cases h
  have hnone : w.task? = none := Worker.task?_eq_none (by simp [hpc])
  rw [load, load, running_of_threads rfl, running_of_threads hthreads, hnone]
  rfl

theorem Takes.load (h : c.Takes c' i j) :
    ∃ rest, c.load wq wr = wq j + rest ∧ c'.load wq wr = wr j + rest := by
  refine ⟨(c'.queued.map wq).sum + (c.running.map wr).sum, ?_, ?_⟩
  · rw [Crew.load, h.queued, List.map_cons, List.sum_cons, add_assoc]
  · rw [Crew.load, (h.running.map wr).sum_eq, List.map_cons, List.sum_cons, add_left_comm]

variable {wq wr}

theorem Leaves.load (h : c.Leaves c' i) : c'.load wq wr = c.load wq wr := by
  rw [Crew.load, Crew.load, (h.running.map wr).sum_eq, h.queued]

theorem Finishes.load (h : c.Finishes c' i j) : c.load wq wr = wr j + c'.load wq wr := by
  rw [Crew.load, Crew.load, (h.running.map wr).sum_eq, h.queued, List.map_cons, List.sum_cons,
    add_left_comm]

end load

/-! ### The jobs that other threads see -/

theorem current_dispatch (c : Crew τ) (t : τ) (k : Nat) :
    (c.dispatch t).current k = c.current k := rfl

theorem current_execute (c : Crew τ) (t : τ) (k : Nat) :
    (c.execute t).current k = c.current k := rfl

theorem current_signal (c : Crew τ) (k : Nat) : c.signal.current k = c.current k := rfl

theorem current_join (h : c.join i = some c') (k : Nat) : c'.current k = c.current k := by
  rw [join] at h
  split at h
  · next ends hw =>
    cases h
    rw [current, current_set hw]
    split
    · next hk => rw [hk, current_eq hw]; rfl
    · rfl
  · cases h

theorem mem_running {j : τ} (h : c.current i = some j) : j ∈ c.running := by
  obtain ⟨w, hw, hj⟩ := Option.bind_eq_some_iff.1 h
  exact List.mem_filterMap.2 ⟨w, List.mem_of_getElem? hw, hj⟩

theorem exists_current {j : τ} (h : j ∈ c.running) : ∃ i, c.current i = some j := by
  obtain ⟨w, hw, hj⟩ := List.mem_filterMap.1 h
  obtain ⟨i, hi⟩ := List.mem_iff_getElem?.1 hw
  exact ⟨i, by rw [current_eq hi, hj]⟩

end Crew

/-! ### The ten moves -/

namespace Pools

/-- What the step of a thread can be. -/
inductive Move (P : Program τ) (s : Pools τ) : Caller → Pools τ → Prop where
  | construct {k : Caller} {n : Nat} {rest : List (Stmt τ)} :
      s.frames k = ⟨.construct n :: rest, none⟩ →
      Move P s k ((s.construct n).setFrame k ⟨rest, none⟩)
  | dispatch {k : Caller} {c : PoolCall τ} {rest : List (Stmt τ)} :
      s.frames k = ⟨.call c :: rest, none⟩ → P.home c.task < s.size →
      (s.crews (P.home c.task)).threads ≠ [] →
      Move P s k
        ((s.setCrew (P.home c.task) ((s.crews (P.home c.task)).dispatch (c.job k))).setFrame k
          ⟨rest, c.awaited⟩)
  | execute {k : Caller} {c : PoolCall τ} {rest : List (Stmt τ)} :
      s.frames k = ⟨.call c :: rest, none⟩ → P.home c.task < s.size →
      (s.crews (P.home c.task)).threads = [] →
      Move P s k
        ((s.setCrew (P.home c.task) ((s.crews (P.home c.task)).execute ⟨c.task, none⟩)).setFrame k
          ⟨(P.body c.task).map .call ++ rest, none⟩)
  | signal {k : Caller} {i p : Nat} {rest : List (Stmt τ)} :
      s.frames k = ⟨.signalling i :: rest, none⟩ → s.size = p + 1 →
      i < (s.crews p).threads.length →
      Move P s k ((s.setCrew p (s.crews p).signal).setFrame k ⟨.signalling (i + 1) :: rest, none⟩)
  | signalled {k : Caller} {i p : Nat} {rest : List (Stmt τ)} :
      s.frames k = ⟨.signalling i :: rest, none⟩ → s.size = p + 1 →
      (s.crews p).threads.length ≤ i → Move P s k (s.setFrame k ⟨.joining 0 :: rest, none⟩)
  | join {k : Caller} {i p : Nat} {rest : List (Stmt τ)} {c : Crew (Job τ)} :
      s.frames k = ⟨.joining i :: rest, none⟩ → s.size = p + 1 → (s.crews p).join i = some c →
      Move P s k ((s.setCrew p c).setFrame k ⟨.joining (i + 1) :: rest, none⟩)
  | joined {k : Caller} {i p : Nat} {rest : List (Stmt τ)} :
      s.frames k = ⟨.joining i :: rest, none⟩ → s.size = p + 1 →
      (s.crews p).threads.length ≤ i → Move P s k ((s.retire p).setFrame k ⟨rest, none⟩)
  | take {p i : Nat} {j : Job τ} {c : Crew (Job τ)} :
      s.frames (.worker p i) = .idle → (s.crews p).Takes c i j →
      Move P s (.worker p i)
        ((s.setCrew p c).setFrame (.worker p i) ⟨(P.body j.task).map .call, none⟩)
  | leave {p i : Nat} {c : Crew (Job τ)} :
      s.frames (.worker p i) = .idle → (s.crews p).Leaves c i →
      Move P s (.worker p i) (s.setCrew p c)
  | finish {p i : Nat} {j : Job τ} {c : Crew (Job τ)} :
      s.frames (.worker p i) = .idle → (s.crews p).Finishes c i j →
      Move P s (.worker p i) ((s.setCrew p c).finish j)

variable {P : Program τ} {s s' : Pools τ} {k : Caller}

theorem exec_cases {x : Stmt τ} {rest : List (Stmt τ)} (hk : s.frames k = ⟨x :: rest, none⟩)
    (h : s.exec P k x rest = some s') : Move P s k s' := by
  cases x with
  | construct n =>
    cases h
    exact .construct hk
  | call c =>
    rw [exec] at h
    split_ifs at h with hlive
    cases h
    rw [call]
    split
    · next hpos => exact .dispatch hk hlive (List.length_pos_iff.1 hpos)
    · next hzero => exact .execute hk hlive (List.length_eq_zero_iff.1 (by omega))
  | signalling i =>
    rw [exec] at h
    split at h
    · cases h
    · next p hsize =>
      split_ifs at h with hlt
      · cases h
        exact .signal hk hsize hlt
      · cases h
        exact .signalled hk hsize (by omega)
  | joining i =>
    rw [exec] at h
    split at h
    · cases h
    · next p hsize =>
      split_ifs at h with hlt
      · obtain ⟨c, hc, rfl⟩ := Option.map_eq_some_iff.1 h
        exact .join hk hsize hc
      · cases h
        exact .joined hk hsize (by omega)

theorem work_cases {p i : Nat} (hk : s.frames (.worker p i) = .idle)
    (h : s.work P p i = some s') : Move P s (.worker p i) s' := by
  unfold work at h
  split at h
  · cases h
  · next c hc =>
    obtain ⟨j, htake⟩ | hleave | ⟨j, hfinish⟩ := Crew.work_cases hc
    · rw [htake.before, htake.after, if_pos rfl] at h
      cases h
      exact .take hk htake
    · rw [hleave.after, hleave.before] at h
      cases h
      exact .leave hk hleave
    · rw [hfinish.before] at h
      cases h
      exact .finish hk hfinish

theorem step_cases (h : s.step P k = some s') : Move P s k s' := by
  unfold step at h
  split at h
  · cases h
  · next hk => exact exec_cases hk h
  · next hk =>
    cases k with
    | main => cases h
    | worker p i => exact work_cases hk h

end Pools

end Nanonet
