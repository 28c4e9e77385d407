import Mathlib.Data.List.Count
import Mathlib.Tactic.Linarith
import Mathlib.Tactic.Positivity
import Nanonet.Dispatch.PoolsProgress

/-!
# The map test

`test_dispatch_n` has `w` threads and a manager with one thread increment the elements of a map, and
checks at the end that each of the `m` elements is `n`. Where the workers wait for the manager, they
add up what its tasks return and check the sum. Under every schedule, for all numbers of threads,
tasks and elements whose sum check does not overflow, the test comes to its end and all checks
succeed (`MapTest.test_dispatch_n_ok`).
-/

namespace Nanonet

namespace Pools

/-- `themap[ i ]` when all pools were destroyed: what the manager has done to it. -/
def themap (s : Pools MapTask) (i : Nat) : Nat :=
  ((s.retired.flatMap Crew.executed).map Job.task).count (.increment i)

variable {w n m : Nat} {returnValue : Bool} {s : Pools MapTask}

theorem tasksOf_workerFunc (j : Nat) : (testDispatchN w n m returnValue).tasksOf (.workerFunc j) =
    .workerFunc j :: (List.range m).map .increment := by
  have hone : ∀ i, (testDispatchN w n m returnValue).tasksOf (.increment i) = [.increment i] :=
    fun i => rfl
  rw [Program.tasksOf_eq (layered_testDispatchN w n m returnValue), Program.below]
  congr 1
  show ((List.range m).map fun i => PoolCall.mk (MapTask.increment i) returnValue).flatMap _ = _
  rw [List.flatMap_map]
  simp only [hone]
  induction List.range m with
  | nil => rfl
  | cons i is ih => rw [List.flatMap_cons, ih, List.map_cons, List.singleton_append]

theorem count_workerFunc {i : Nat} (hi : i < m) (j : Nat) :
    ((testDispatchN w n m returnValue).tasksOf (.workerFunc j)).count (.increment i) = 1 := by
  have hinj : Function.Injective MapTask.increment := fun _ _ h => MapTask.increment.inj h
  rw [tasksOf_workerFunc, List.count_cons_of_ne (by simp), List.count_map_of_injective _ _ hinj]
  exact List.count_eq_one_of_mem List.nodup_range (List.mem_range.2 hi)

theorem count_allTasks {i : Nat} (hi : i < m) :
    (testDispatchN w n m returnValue).allTasks.count (.increment i) = n := by
  have hcalls : ∀ js : List Nat, ((js.map fun j => Stmt.call ⟨MapTask.workerFunc j, false⟩).flatMap
      (testDispatchN w n m returnValue).stmtTasks).count (.increment i) = js.length := by
    intro js
    induction js with
    | nil => rfl
    | cons j js ih =>
      rw [List.map_cons, List.flatMap_cons, List.count_append, ih, Program.stmtTasks,
        count_workerFunc hi, List.length_cons, Nat.add_comm]
  have hmain : (testDispatchN w n m returnValue).allTasks =
      ((List.range n).map fun j => Stmt.call ⟨MapTask.workerFunc j, false⟩).flatMap
        (testDispatchN w n m returnValue).stmtTasks ++ [] := by
    rw [Program.allTasks]
    show ([Stmt.construct 1, .construct w] ++ _ ++ [Stmt.destroy, .destroy]).flatMap _ = _
    rw [List.flatMap_append, List.flatMap_append]
    rfl
  rw [hmain, List.append_nil, hcalls, List.length_range]

end Pools

/-! ### The sum check -/

/-- The variables `i` and `total` of the `worker_func` that a thread runs. -/
structure SumLoop where
  i : Nat
  total : ℤ
  deriving DecidableEq

/-- The result of an `int` operation, if it does not overflow. -/
def intResult (x : ℤ) : Option ℤ := if -2 ^ 31 ≤ x ∧ x < 2 ^ 31 then some x else none

/-- `m * (m - 1) / 2` -/
def expectedSum (m : Nat) : Option ℤ := (intResult (m * (m - 1))).map fun x => x.tdiv 2

/-- `total += dispatch_returning( ... )` for a value, with the check of the sum behind the last pass
of the loop: nothing where it calls `std::exit( 1 )`, or where an `int` overflows. -/
def SumLoop.add (m : Nat) (l : SumLoop) (value : ℤ) : Option SumLoop :=
  (intResult (l.total + value)).bind fun total =>
    if l.i + 1 < m then some ⟨l.i + 1, total⟩
    else if expectedSum m = some total then some ⟨0, 0⟩ else none

/-- `return i ;` of a task for the manager. -/
def MapTask.value : MapTask → ℤ
  | .workerFunc _ => 0
  | .increment i => i

/-- The test with what the workers add up. -/
structure MapTest where
  pools : Pools MapTask
  loops : Caller → SumLoop
  /-- A check has ended the program, or an `int` overflowed. -/
  aborted : Bool

namespace MapTest

/-- The caller to which a `dispatch_returning()` comes back in the next step of a thread, and the
task whose value it returns: a wrapper stores it for the thread it refers to; a pool without threads
has executed the task on the spot. -/
def returning (P : Program MapTask) (s : Pools MapTask) (k : Caller) : Option (Caller × MapTask) :=
  match s.frames k with
  | ⟨.call c :: _, none⟩ =>
    if c.returning ∧ (s.crews (P.home c.task)).threads = [] then some (k, c.task) else none
  | ⟨[], none⟩ =>
    match k with
    | .main => none
    | .worker p i => ((s.crews p).current i).bind fun j => j.frame.map fun k => (k, j.task)
  | _ => none

section steps

variable (w n m : Nat) (returnValue : Bool)

def start : MapTest := ⟨Pools.start (testDispatchN w n m returnValue), fun _ => ⟨0, 0⟩, false⟩

/-- The next step of a thread, when it does not block. -/
def step (s : MapTest) (k : Caller) : Option MapTest :=
  let P := testDispatchN w n m returnValue
  if s.aborted then none
  else
    (s.pools.step P k).map fun pools =>
      match returning P s.pools k with
      | none => { s with pools := pools }
      | some (k', t) =>
        match (s.loops k').add m t.value with
        | none => { s with pools := pools, aborted := true }
        | some l => { s with pools := pools, loops := Function.update s.loops k' l }

/-- The threads take their steps in this order, as far as none blocks. -/
def run (ks : List Caller) : Option MapTest :=
  ks.foldlM (step w n m returnValue) (start w n m returnValue)

end steps

variable {w n m : Nat} {returnValue : Bool}

/-- The values that are still to be added, and what was added. -/
def Due (m : Nat) (pending : List Nat) (l : SumLoop) : Prop :=
  pending = [] ∧ l = ⟨0, 0⟩ ∨
    l.i < m ∧ pending = (List.range m).drop l.i ∧ 2 * l.total = l.i * (l.i - 1)

theorem Due.eq_start {l : SumLoop} (h : Due m [] l) : l = ⟨0, 0⟩ := by
  obtain ⟨-, hl⟩ | ⟨hlt, hnil, -⟩ := h
  · exact hl
  · have hlen := congrArg List.length hnil
    rw [List.length_nil, List.length_drop, List.length_range] at hlen
    omega

theorem due_range (m : Nat) : Due m (List.range m) ⟨0, 0⟩ := by
  obtain rfl | hm := Nat.eq_zero_or_pos m
  · exact .inl ⟨rfl, rfl⟩
  · exact .inr ⟨hm, rfl, rfl⟩

theorem intResult_of {x : ℤ} (h0 : 0 ≤ x) (h : x < 2 ^ 31) : intResult x = some x :=
  if_pos ⟨by omega, h⟩

theorem Due.add (hm : m * (m - 1) < 2 ^ 31) {i : Nat} {is : List Nat} {l : SumLoop}
    (h : Due m (i :: is) l) : ∃ l', l.add m i = some l' ∧ Due m is l' := by
  obtain ⟨hnil, -⟩ | ⟨hlt, hpending, htotal⟩ := h
  · cases hnil
  rw [List.drop_eq_getElem_cons (by simpa using hlt), List.getElem_range] at hpending
  obtain ⟨rfl, rfl⟩ := List.cons.inj hpending
  obtain ⟨i, total⟩ := l
  dsimp only at hlt htotal ⊢
  have htotal' : 2 * (total + i) = ((i + 1 : ℕ) : ℤ) * ((i + 1 : ℕ) - 1) := by
    push_cast
    linarith
  have hm' : (m : ℤ) * (m - 1) < 2 ^ 31 := by
    obtain _ | m := m
    · norm_num
    · have hcast := Int.ofNat_lt.2 hm
      push_cast at hcast ⊢
      simpa using hcast
  have hle : ((i + 1 : ℕ) : ℤ) * ((i + 1 : ℕ) - 1) ≤ m * (m - 1) := by
    have hi : (i : ℤ) + 1 ≤ m := by exact_mod_cast hlt
    push_cast
    nlinarith
  have hnonneg : 0 ≤ total + i := by
    have hsquare : 2 * (total + i) = (i + 1) * i := by linarith
    have hpos : (0 : ℤ) ≤ (i + 1) * i := by positivity
    omega
  have hsum : intResult (total + i) = some (total + i) := intResult_of hnonneg (by omega)
  by_cases hlast : i + 1 < m
  · refine ⟨⟨i + 1, total + i⟩, ?_, .inr ⟨hlast, rfl, htotal'⟩⟩
    rw [SumLoop.add, hsum, Option.bind_some, if_pos hlast]
  · obtain rfl : m = i + 1 := by omega
    have hexpected : expectedSum (i + 1) = some (total + i) := by
      rw [expectedSum, intResult_of (htotal' ▸ by omega) hm', ← htotal', Option.map_some,
        Int.mul_tdiv_cancel_left _ two_ne_zero]
    refine ⟨⟨0, 0⟩, ?_, .inl ⟨?_, rfl⟩⟩
    · rw [SumLoop.add, hsum, Option.bind_some, if_neg hlast, if_pos hexpected]
    · simp

/-- A call of the code of a `worker_func`, and one of the main thread. -/
def addCall (returnValue : Bool) (i : Nat) : Stmt MapTask := .call ⟨.increment i, returnValue⟩

def Plain (rest : List (Stmt MapTask)) : Prop :=
  ∀ c, .call c ∈ rest → c.returning = false ∧ ∃ j, c.task = .workerFunc j

/-- Where a thread is in a `worker_func`: what it waits for and what it has still to call is what is
still to be added. -/
def Summing (m : Nat) (returnValue : Bool) (f : Frame MapTask) (l : SumLoop) : Prop :=
  ∃ is rest, f.todo = is.map (addCall returnValue) ++ rest ∧ Plain rest ∧
    if returnValue then
      f.awaited = none ∧ Due m is l ∨ ∃ i, f.awaited = some (.increment i) ∧ Due m (i :: is) l
    else f.awaited = none

theorem Summing.next {f : Frame MapTask} {l : SumLoop} {x : Stmt MapTask}
    {todo : List (Stmt MapTask)} (h : Summing m returnValue f l) (hf : f = ⟨x :: todo, none⟩) :
    (∃ i is rest, x = addCall returnValue i ∧ todo = is.map (addCall returnValue) ++ rest ∧
        Plain rest ∧ (returnValue = true → Due m (i :: is) l)) ∨
      Plain (x :: todo) ∧ (returnValue = true → l = ⟨0, 0⟩) := by
  obtain ⟨is, rest, htodo, hplain, hdue⟩ := h
  subst hf
  have hdue' : returnValue = true → Due m is l := by
    rintro rfl
    obtain ⟨-, hdue⟩ | ⟨i, hi, -⟩ := hdue
    · exact hdue
    · cases hi
  cases is with
  | nil =>
    obtain rfl : x :: todo = rest := htodo
    exact .inr ⟨hplain, fun hreturn => (hdue' hreturn).eq_start⟩
  | cons i is =>
    rw [List.map_cons, List.cons_append] at htodo
    obtain ⟨rfl, rfl⟩ := List.cons.inj htodo
    exact .inl ⟨i, is, rest, rfl, rfl, hplain, hdue'⟩

theorem Summing.eq_start {f : Frame MapTask} {l : SumLoop} (h : Summing m true f l)
    (hf : f = .idle) : l = ⟨0, 0⟩ := by
  obtain ⟨is, rest, htodo, -, hdue⟩ := h
  subst hf
  obtain ⟨rfl, -⟩ : is = [] ∧ rest = [] := by simpa [Frame.idle] using htodo.symm
  obtain ⟨-, hdue⟩ | ⟨i, hi, -⟩ := hdue
  · exact hdue.eq_start
  · cases hi

theorem summing_plain {rest : List (Stmt MapTask)} (hplain : Plain rest) {l : SumLoop}
    (hl : returnValue = true → l = ⟨0, 0⟩) : Summing m returnValue ⟨rest, none⟩ l := by
  refine ⟨[], rest, rfl, hplain, ?_⟩
  cases returnValue with
  | false => rfl
  | true => exact .inl ⟨rfl, .inl ⟨rfl, hl rfl⟩⟩

theorem summing_body (t : MapTask) {rest : List (Stmt MapTask)} (hplain : Plain rest) {l : SumLoop}
    (hl : returnValue = true → l = ⟨0, 0⟩) :
    Summing m returnValue
      ⟨((testDispatchN w n m returnValue).body t).map .call ++ rest, none⟩ l := by
  cases t with
  | increment i => exact summing_plain hplain hl
  | workerFunc j =>
    refine ⟨List.range m, rest, ?_, hplain, ?_⟩
    · show ((List.range m).map _).map _ ++ rest = _
      rw [List.map_map]
      rfl
    · cases returnValue with
      | false => rfl
      | true => exact .inl ⟨rfl, hl rfl ▸ due_range m⟩

theorem Summing.resume {f : Frame MapTask} {l : SumLoop} (hm : m * (m - 1) < 2 ^ 31)
    (h : Summing m true f l) {t : MapTask} (ht : f.awaited = some t) :
    ∃ l', l.add m t.value = some l' ∧ Summing m true f.resume l' := by
  obtain ⟨is, rest, htodo, hplain, ⟨hnone, -⟩ | ⟨i, hi, hdue⟩⟩ := h
  · cases hnone.symm.trans ht
  · obtain rfl := Option.some.inj (hi.symm.trans ht)
    obtain ⟨l', hl', hdue'⟩ := hdue.add hm
    exact ⟨l', hl', is, rest, htodo, hplain, .inl ⟨rfl, hdue'⟩⟩

/-! ### The sums are right -/

theorem plain_nil : Plain [] := fun _ hc => absurd hc List.not_mem_nil

theorem Plain.tail {x : Stmt MapTask} {rest : List (Stmt MapTask)} (h : Plain (x :: rest)) :
    Plain rest :=
  fun c hc => h c (List.mem_cons_of_mem _ hc)

theorem Summing.plain {f : Frame MapTask} {l : SumLoop} {x : Stmt MapTask}
    {todo : List (Stmt MapTask)} (h : Summing m returnValue f l) (hf : f = ⟨x :: todo, none⟩)
    (hx : ∀ c, x ≠ .call c) : Plain todo ∧ (returnValue = true → l = ⟨0, 0⟩) := by
  obtain ⟨i, -, -, rfl, -⟩ | ⟨hplain, hl⟩ := h.next hf
  · exact absurd rfl (hx _)
  · exact ⟨hplain.tail, hl⟩

section moves

variable {s s' : Pools MapTask} {k : Caller} {loops : Caller → SumLoop}

theorem returning_statement {P : Program MapTask} {x : Stmt MapTask} {rest : List (Stmt MapTask)}
    (hk : s.frames k = ⟨x :: rest, none⟩) (hx : ∀ c, x ≠ .call c) : returning P s k = none := by
  unfold returning
  rw [hk]
  cases x with
  | call c => exact absurd rfl (hx c)
  | _ => rfl

theorem returning_call {P : Program MapTask} {c : PoolCall MapTask} {rest : List (Stmt MapTask)}
    (hk : s.frames k = ⟨.call c :: rest, none⟩) :
    returning P s k =
      if c.returning ∧ (s.crews (P.home c.task)).threads = [] then some (k, c.task) else none := by
  unfold returning
  rw [hk]

theorem returning_idle {P : Program MapTask} {p i : Nat} (hk : s.frames (.worker p i) = .idle) :
    returning P s (.worker p i) =
      ((s.crews p).current i).bind fun j => j.frame.map fun k => (k, j.task) := by
  unfold returning
  rw [hk]
  rfl

theorem summing_update (hloops : ∀ k, Summing m returnValue (s.frames k) (loops k))
    {f : Frame MapTask} (hf : Summing m returnValue f (loops k)) :
    ∀ k', Summing m returnValue (Function.update s.frames k f k') (loops k') := by
  rw [Function.forall_update_iff s.frames fun k f => Summing m returnValue f (loops k)]
  exact ⟨hf, fun k' _ => hloops k'⟩

/-- In this step no value comes back, or one that the sum of its caller takes. -/
def Moved (w n m : Nat) (returnValue : Bool) (s : Pools MapTask) (loops : Caller → SumLoop)
    (k : Caller) (s' : Pools MapTask) : Prop :=
  (returning (testDispatchN w n m returnValue) s k = none ∧
      ∀ k', Summing m returnValue (s'.frames k') (loops k')) ∨
    ∃ k' t l, returning (testDispatchN w n m returnValue) s k = some (k', t) ∧
      (loops k').add m t.value = some l ∧
      ∀ i, Summing m returnValue (s'.frames i) (Function.update loops k' l i)

/-- Statements that are not calls follow one that is not. -/
theorem moved_statement (hloops : ∀ k, Summing m returnValue (s.frames k) (loops k))
    {x : Stmt MapTask} {rest : List (Stmt MapTask)} (hk : s.frames k = ⟨x :: rest, none⟩)
    (hx : ∀ c, x ≠ .call c) (new : List (Stmt MapTask)) (hnew : ∀ c, .call c ∉ new)
    (hs' : s'.frames = Function.update s.frames k ⟨new ++ rest, none⟩) :
    Moved w n m returnValue s loops k s' := by
  obtain ⟨hplain, hl⟩ := (hloops k).plain hk hx
  refine .inl ⟨returning_statement hk hx, ?_⟩
  rw [hs']
  refine summing_update hloops (summing_plain ?_ hl)
  intro c hc
  exact hplain c ((List.mem_append.1 hc).resolve_left (hnew c))

theorem moved_dispatch (hloops : ∀ k, Summing m returnValue (s.frames k) (loops k))
    {c : PoolCall MapTask} {rest : List (Stmt MapTask)} (hk : s.frames k = ⟨.call c :: rest, none⟩)
    (hthreads : (s.crews ((testDispatchN w n m returnValue).home c.task)).threads ≠ [])
    (hs' : s'.frames = Function.update s.frames k ⟨rest, c.awaited⟩) :
    Moved w n m returnValue s loops k s' := by
  refine .inl ⟨(returning_call hk).trans (if_neg fun h => hthreads h.2), ?_⟩
  rw [hs']
  refine summing_update hloops ?_
  obtain ⟨i, is, rest', hcall, rfl, hplain, hdue⟩ | ⟨hplain, hl⟩ := (hloops k).next hk
  · cases hcall
    refine ⟨is, rest', rfl, hplain, ?_⟩
    cases returnValue with
    | false => rfl
    | true => exact .inr ⟨i, rfl, hdue rfl⟩
  · rw [PoolCall.awaited, (hplain _ List.mem_cons_self).1]
    exact summing_plain hplain.tail hl

theorem moved_execute (hm : returnValue = true → m * (m - 1) < 2 ^ 31)
    (hloops : ∀ k, Summing m returnValue (s.frames k) (loops k)) {c : PoolCall MapTask}
    {rest : List (Stmt MapTask)} (hk : s.frames k = ⟨.call c :: rest, none⟩)
    (hthreads : (s.crews ((testDispatchN w n m returnValue).home c.task)).threads = [])
    (hs' : s'.frames = Function.update s.frames k
      ⟨((testDispatchN w n m returnValue).body c.task).map .call ++ rest, none⟩) :
    Moved w n m returnValue s loops k s' := by
  unfold Moved
  rw [hs']
  obtain ⟨i, is, rest', hcall, rfl, hplain, hdue⟩ | ⟨hplain, hl⟩ := (hloops k).next hk
  · cases hcall
    cases returnValue with
    | false =>
      exact .inl ⟨(returning_call hk).trans (if_neg fun h => Bool.false_ne_true h.1),
        summing_update hloops ⟨is, rest', rfl, hplain, rfl⟩⟩
    | true =>
      obtain ⟨l, hadd, hdue'⟩ := (hdue rfl).add (hm rfl)
      refine .inr ⟨k, .increment i, l, (returning_call hk).trans (if_pos ⟨rfl, hthreads⟩), hadd,
        fun k' => ?_⟩
      by_cases hk' : k' = k
      · subst hk'
        rw [Function.update_self, Function.update_self]
        exact ⟨is, rest', rfl, hplain, .inl ⟨rfl, hdue'⟩⟩
      · rw [Function.update_of_ne hk', Function.update_of_ne hk']
        exact hloops k'
  · have hreturn := (hplain _ List.mem_cons_self).1
    exact .inl ⟨(returning_call hk).trans
      (if_neg fun h => Bool.false_ne_true (hreturn.symm.trans h.1)),
      summing_update hloops (summing_body _ hplain.tail hl)⟩

theorem moved_finish (hm : returnValue = true → m * (m - 1) < 2 ^ 31)
    (hreach : (Pools.lts (testDispatchN w n m returnValue)).Reachable s)
    (hloops : ∀ k, Summing m returnValue (s.frames k) (loops k)) {p i : Nat} {j : Job MapTask}
    {c : Crew (Job MapTask)} (hidle : s.frames (.worker p i) = .idle)
    (hfinish : (s.crews p).Finishes c i j) :
    Moved w n m returnValue s loops (.worker p i) ((s.setCrew p c).finish j) := by
  have hreturning : returning (testDispatchN w n m returnValue) s (.worker p i) =
      j.frame.map fun k => (k, j.task) := by
    rw [returning_idle hidle, hfinish.before, Option.bind_some]
  cases hframe : j.frame with
  | none =>
    refine .inl ⟨by rw [hreturning, hframe]; rfl, fun k' => ?_⟩
    rw [Pools.frames_finish, hframe, if_neg (by simp)]
    exact hloops k'
  | some k' =>
    have hpending : j ∈ (s.crews p).pending :=
      Crew.mem_pending.2 (.inr (Crew.mem_running hfinish.before))
    have hawaited := Pools.awaited_of_pending hreach (.inr ⟨p, rfl⟩) hpending hframe
    cases returnValue with
    | false =>
      obtain ⟨_, _, _, _, hnone⟩ := hloops k'
      cases Eq.trans (Eq.symm hnone) hawaited
    | true =>
      obtain ⟨l, hadd, hsumming⟩ := (hloops k').resume (hm rfl) hawaited
      refine .inr ⟨k', j.task, l, by rw [hreturning, hframe]; rfl, hadd, fun i => ?_⟩
      rw [Pools.frames_finish, hframe]
      by_cases hi : i = k'
      · subst hi
        rw [if_pos rfl, Function.update_self]
        exact hsumming
      · rw [if_neg (by simpa using Ne.symm hi), Function.update_of_ne hi]
        exact hloops i

theorem moved_of_move (hm : returnValue = true → m * (m - 1) < 2 ^ 31)
    (hreach : (Pools.lts (testDispatchN w n m returnValue)).Reachable s)
    (hloops : ∀ k, Summing m returnValue (s.frames k) (loops k))
    (hmove : Pools.Move (testDispatchN w n m returnValue) s k s') :
    Moved w n m returnValue s loops k s' := by
  cases hmove with
  | construct hk => exact moved_statement hloops hk (by simp) [] (by simp) rfl
  | @signal _ i _ _ hk =>
    exact moved_statement hloops hk (by simp) [.signalling (i + 1)] (by simp) rfl
  | signalled hk => exact moved_statement hloops hk (by simp) [.joining 0] (by simp) rfl
  | @join _ i _ _ _ hk =>
    exact moved_statement hloops hk (by simp) [.joining (i + 1)] (by simp) rfl
  | joined hk => exact moved_statement hloops hk (by simp) [] (by simp) rfl
  | dispatch hk _ hne => exact moved_dispatch hloops hk hne rfl
  | execute hk _ hnil => exact moved_execute hm hloops hk hnil rfl
  | @take p i j c hidle htake =>
    have hl : returnValue = true → loops (.worker p i) = ⟨0, 0⟩ := by
      rintro rfl
      exact (hloops _).eq_start hidle
    refine .inl ⟨?_, summing_update hloops ?_⟩
    · rw [returning_idle hidle, htake.before, Option.bind_none]
    · rw [← List.append_nil (List.map _ _)]
      exact summing_body _ plain_nil hl
  | leave hidle hleave =>
    exact .inl ⟨by rw [returning_idle hidle, hleave.before, Option.bind_none], hloops⟩
  | finish hidle hfinish => exact moved_finish hm hreach hloops hidle hfinish

end moves

/-- The pools are in a state of the program, and every sum is right so far. -/
structure Right (w n m : Nat) (returnValue : Bool) (s : MapTest) : Prop where
  reachable : (Pools.lts (testDispatchN w n m returnValue)).Reachable s.pools
  loops : ∀ k, Summing m returnValue (s.pools.frames k) (s.loops k)
  aborted : s.aborted = false

theorem Right.step (hm : returnValue = true → m * (m - 1) < 2 ^ 31) {s s' : MapTest} {k : Caller}
    (h : Right w n m returnValue s) (hstep : s.step w n m returnValue k = some s') :
    Right w n m returnValue s' ∧
      s.pools.step (testDispatchN w n m returnValue) k = some s'.pools := by
  rw [MapTest.step] at hstep
  simp only [h.aborted, Bool.false_eq_true, if_false] at hstep
  obtain ⟨pools, hpools, hs'⟩ := Option.map_eq_some_iff.1 hstep
  have hreach : (Pools.lts (testDispatchN w n m returnValue)).Reachable pools :=
    .step h.reachable hpools
  obtain ⟨hnone, hloops⟩ | ⟨k', t, l, hsome, hadd, hloops⟩ :=
    moved_of_move hm h.reachable h.loops (Pools.step_cases hpools)
  · simp only [hnone] at hs'
    subst hs'
    exact ⟨⟨hreach, hloops, rfl⟩, hpools⟩
  · simp only [hsome, hadd] at hs'
    subst hs'
    exact ⟨⟨hreach, hloops, rfl⟩, hpools⟩

theorem right_start : Right w n m returnValue (start w n m returnValue) where
  reachable := .init rfl
  loops k := by
    have hmain : Plain (testDispatchN w n m returnValue).main := by
      intro c hc
      simp only [testDispatchN, List.mem_append, List.mem_cons, List.mem_map, List.not_mem_nil,
        reduceCtorEq, or_false, false_or, Stmt.call.injEq] at hc
      obtain ⟨j, -, rfl⟩ := hc
      exact ⟨rfl, j, rfl⟩
    cases k with
    | main => exact summing_plain hmain fun _ => rfl
    | worker p i => exact summing_plain plain_nil fun _ => rfl
  aborted := rfl

theorem right_of_run (hm : returnValue = true → m * (m - 1) < 2 ^ 31) {ks : List Caller}
    {s s' : MapTest} (h : Right w n m returnValue s)
    (hrun : ks.foldlM (MapTest.step w n m returnValue) s = some s') :
    Right w n m returnValue s' ∧
      ks.foldlM (fun s k => Pools.step (testDispatchN w n m returnValue) s k) s.pools =
        some s'.pools := by
  induction ks generalizing s with
  | nil =>
    cases hrun
    exact ⟨h, rfl⟩
  | cons k ks ih =>
    rw [List.foldlM_cons] at hrun
    obtain ⟨next, hstep, hrest⟩ := Option.bind_eq_some_iff.1 hrun
    obtain ⟨hnext, hpools⟩ := h.step hm hstep
    obtain ⟨hs', hrest'⟩ := ih hnext hrest
    refine ⟨hs', ?_⟩
    rw [List.foldlM_cons, hpools]
    exact hrest'

/-- **The map test succeeds under every schedule.** With sums for which `int` is large enough, no
check of a sum fails; no run is longer than the program has steps; and a run that cannot go on has
destroyed both pools, and then each element of the map is the number of tasks. -/
theorem test_dispatch_n_ok (hm : returnValue = true → m * (m - 1) < 2 ^ 31) {ks : List Caller}
    {s : MapTest} (h : run w n m returnValue ks = some s) :
    s.aborted = false ∧ ks.length ≤ (testDispatchN w n m returnValue).steps ∧
      ((∀ k, s.step w n m returnValue k = none) →
        s.pools.size = 0 ∧ ∀ i < m, s.pools.themap i = n) := by
  have hP := layered_testDispatchN w n m returnValue
  obtain ⟨⟨hreach, -, haborted⟩, hrun⟩ := right_of_run hm right_start h
  refine ⟨haborted, Pools.steps_le hP hrun, fun hstuck => ?_⟩
  have hpools : ∀ k, s.pools.step (testDispatchN w n m returnValue) k = none := by
    intro k
    have hk := hstuck k
    rw [step, haborted] at hk
    exact Option.map_eq_none_iff.1 hk
  have hfin := Pools.finished_of_stuck hP hreach hpools
  refine ⟨((Pools.inv (.layered hP) hreach).finished hfin).1, fun i hi => ?_⟩
  rw [Pools.themap, (Pools.executed_perm hP hreach hfin).count_eq, Pools.count_allTasks hi]

/-- One worker whose task has the manager increment two elements and adds up 0 and 1. -/
def twoElements : List Caller := [.main, .main, .main, .worker 1 0, .worker 1 0, .worker 0 0,
  .worker 0 0, .worker 1 0, .worker 0 0, .worker 0 0, .worker 1 0, .main, .worker 1 0, .main, .main,
  .main, .main, .worker 0 0, .main, .main, .main]

theorem twoElements_run : (run 1 1 2 true twoElements).isSome = true := by decide +kernel

def twoElementsDone : MapTest := Option.get _ twoElements_run

theorem twoElements_finished : twoElementsDone.pools.Finished := by
  have hend : (twoElementsDone.pools.frames .main).todo.isEmpty = true ∧
      (twoElementsDone.pools.frames .main).awaited.isNone = true := by decide +kernel
  rcases hframe : twoElementsDone.pools.frames .main with ⟨todo, awaited⟩
  rw [hframe] at hend
  obtain ⟨rfl, rfl⟩ : todo = [] ∧ awaited = none := by simpa using hend
  exact hframe

theorem test_dispatch_n_ok_two : twoElementsDone.aborted = false ∧
    twoElementsDone.pools.themap 0 = 1 ∧ twoElementsDone.pools.themap 1 = 1 := by
  have hrun : run 1 1 2 true twoElements = some twoElementsDone :=
    (Option.some_get twoElements_run).symm
  have hm : true = true → 2 * (2 - 1) < 2 ^ 31 := fun _ => by decide
  obtain ⟨haborted, -, hend⟩ := test_dispatch_n_ok hm hrun
  have hreach := (right_of_run hm right_start hrun).1.reachable
  have hinv := Pools.inv (.layered (layered_testDispatchN 1 1 2 true)) hreach
  have hmap := (hend fun k => by
    rw [step, haborted]
    exact congrArg (Option.map _) (hinv.stuck twoElements_finished k)).2
  exact ⟨haborted, hmap 0 Nat.two_pos, hmap 1 Nat.one_lt_two⟩

end MapTest

end Nanonet
