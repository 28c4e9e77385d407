import Nanonet.Dispatch.PoolMoves
import Nanonet.Lib.Totals

/-!
# Invariants of a program with pools

Whatever its tasks call, in every state of a program each pool is a crew in the sense of `Crew.lts`,
each job is at the level of its task, a thread that runs no job has nothing to do, and a thread that
waits is waiting for exactly one wrapper, which is queued or running (`Pools.inv`). The main thread
is in one of the two loops of a destructor, or has not signalled any of the pools.

The calls that a thread makes at a level are `ok` when its tasks' calls are; for layered programs
this says that tasks call older pools only, and then no pool is called once its destructor has
started (`Pools.unsignalled`).
-/

namespace Nanonet

variable {τ : Type*}

namespace Crew

variable {c c' : Crew (Job τ)} {i : Nat} {j : Job τ}

/-- The jobs that are queued or running. -/
def pending {υ : Type*} (c : Crew υ) : Multiset υ := c.load (fun j => {j}) fun j => {j}

/-- A wrapper that refers to the frame of `k`. -/
def owedBy (k : Caller) (j : Job τ) : Multiset τ := if j.frame = some k then {j.task} else 0

/-- The tasks whose wrappers are queued or running and refer to the frame of `k`. -/
def owed (k : Caller) (c : Crew (Job τ)) : Multiset τ := c.load (owedBy k) (owedBy k)

theorem pending_start {υ : Type*} (n : Nat) : (Crew.start n : Crew υ).pending = 0 :=
  load_start _ _ n

theorem mem_pending {υ : Type*} {c : Crew υ} {j : υ} :
    j ∈ c.pending ↔ j ∈ c.queued ∨ j ∈ c.running := by
  have hsum : ∀ l : List υ, (l.map fun j => ({j} : Multiset υ)).sum = (l : Multiset υ) := by
    intro l
    induction l with
    | nil => rfl
    | cons a l ih =>
      rw [List.map_cons, List.sum_cons, ih, Multiset.singleton_add, Multiset.cons_coe]
  rw [pending, load, hsum, hsum, Multiset.mem_add, Multiset.mem_coe, Multiset.mem_coe]

theorem Takes.pending (h : c.Takes c' i j) : c'.pending = c.pending := by
  obtain ⟨rest, hc, hc'⟩ := h.load (fun j => ({j} : Multiset (Job τ))) fun j => {j}
  rw [Crew.pending, Crew.pending, hc, hc']

theorem Takes.owed (h : c.Takes c' i j) (k : Caller) : c'.owed k = c.owed k := by
  obtain ⟨rest, hc, hc'⟩ := h.load (owedBy k) (owedBy k)
  rw [Crew.owed, Crew.owed, hc, hc']

theorem current_start {υ : Type*} (n i : Nat) : (Crew.start n : Crew υ).current i = none := by
  rw [current, Option.bind_eq_none_iff]
  intro w hw
  rw [List.eq_of_mem_replicate (List.mem_of_getElem? hw)]
  rfl

theorem At.current_joined {υ : Type*} {c : Crew υ} {m n : Nat} (hat : c.At m n) (h : c.Inv)
    (hle : c.threads.length ≤ n) (i : Nat) : c.current i = none := by
  rw [current, Option.bind_eq_none_iff]
  intro w hw
  have hjoins : w.joins = 1 := by
    rw [hat.thread hw, if_pos ((List.getElem?_eq_some_iff.1 hw).1.trans_le hle)]
  have hret := (h.workers w (List.mem_of_getElem? hw)).joins (by omega)
  exact Worker.task?_eq_none (by simp [hret])

theorem mem_owed {c : Crew (Job τ)} {k : Caller} {t : τ} :
    t ∈ c.owed k ↔ ⟨t, some k⟩ ∈ c.pending := by
  have hsum : ∀ l : List (Job τ), t ∈ (l.map (owedBy k)).sum ↔ ⟨t, some k⟩ ∈ l := by
    intro l
    induction l with
    | nil => simp
    | cons j l ih =>
      obtain ⟨u, frame⟩ := j
      rw [List.map_cons, List.sum_cons, Multiset.mem_add, ih, List.mem_cons, Job.mk.injEq, owedBy]
      by_cases hk : frame = some k
      · simp [hk]
      · simp [hk, Ne.symm hk]
  rw [mem_pending, Crew.owed, load, Multiset.mem_add, hsum, hsum]

end Crew

def Frame.owed (f : Frame τ) : Multiset τ := (f.awaited.toList : List τ)

@[simp] theorem Frame.owed_none (todo : List (Stmt τ)) :
    (⟨todo, none⟩ : Frame τ).owed = 0 := rfl

@[simp] theorem Frame.owed_resume (f : Frame τ) : f.resume.owed = 0 := rfl

theorem Frame.mem_owed {f : Frame τ} {t : τ} : t ∈ f.owed ↔ f.awaited = some t := by
  rw [owed, Multiset.mem_coe, Option.mem_toList]

theorem Frame.owed_awaited (c : PoolCall τ) (k : Caller) (rest : List (Stmt τ)) :
    (⟨rest, c.awaited⟩ : Frame τ).owed = Crew.owedBy k (c.job k) := by
  rw [owed, PoolCall.awaited, Crew.owedBy, PoolCall.job]
  cases c.returning <;> simp

theorem Crew.owedBy_of_ne (c : PoolCall τ) {k k' : Caller} (hk : k' ≠ k) :
    Crew.owedBy k' (c.job k) = 0 := by
  rw [owedBy, PoolCall.job, if_neg]
  split <;> simp [Ne.symm hk]

theorem Scoped.mono {ok ok' : Nat → τ → Prop} (himp : ∀ n t, ok n t → ok' n t) {n : Nat}
    {todo : List (Stmt τ)} (h : Scoped ok n todo) : Scoped ok' n todo := by
  fun_induction Scoped ok n todo with
  | case1 n => exact h
  | case2 n _ rest ih => exact ih h
  | case3 n c rest ih => exact ⟨himp n c.task h.1, ih h.2⟩
  | case4 n rest ih => exact ih h
  | case5 => exact h.elim

theorem Scoped.calls_append {ok : Nat → τ → Prop} {n : Nat} {cs : List (PoolCall τ)}
    {rest : List (Stmt τ)} (hcs : ∀ c ∈ cs, ok n c.task) (h : Scoped ok n rest) :
    Scoped ok n (cs.map .call ++ rest) := by
  induction cs with
  | nil => exact h
  | cons c cs ih =>
    rw [List.forall_mem_cons] at hcs
    exact ⟨hcs.1, ih hcs.2⟩

namespace Pools

/-- Where the main thread is: outside of destructors, no pool was signalled; in that of the newest
pool, which is the last below `n`, as many markers were queued and threads joined as its loops say.
-/
inductive MainAt (ok : Nat → τ → Prop) (crews : Nat → Crew (Job τ)) :
    Nat → List (Stmt τ) → Prop where
  | code {n : Nat} {todo : List (Stmt τ)} : (∀ p < n, (crews p).At 0 0) → Scoped ok n todo →
      MainAt ok crews n todo
  | signalling {p i : Nat} {rest : List (Stmt τ)} : (crews p).At i 0 →
      (∀ q < p, (crews q).At 0 0) → Scoped ok p rest →
      MainAt ok crews (p + 1) (.signalling i :: rest)
  | joining {p i : Nat} {rest : List (Stmt τ)} : (crews p).At (crews p).threads.length i →
      (∀ q < p, (crews q).At 0 0) → Scoped ok p rest → MainAt ok crews (p + 1) (.joining i :: rest)

structure Inv (P : Program τ) (ok : Nat → τ → Prop) (s : Pools τ) : Prop where
  crew : ∀ p, (Crew.lts (Job τ)).Reachable (s.crews p)
  beyond : ∀ p, s.size ≤ p → s.crews p = Crew.start 0
  home : ∀ p, ∀ j ∈ (s.crews p).pending, P.home j.task = p
  idle : ∀ p i, (s.crews p).current i = none → s.frames (.worker p i) = .idle
  calls : ∀ p i, ∀ x ∈ (s.frames (.worker p i)).todo, ∃ c, x = .call c ∧ ok p c.task
  awaits : ∀ p i, ∀ t ∈ (s.frames (.worker p i)).awaited, ok p t
  owed : ∀ k, ∃ t, HasTotal (Crew.owed k) s.crews t ∧
    t + (s.retired.map (Crew.owed k)).sum = (s.frames k).owed
  main : MainAt ok s.crews s.size (s.frames .main).todo

/-- Which calls the main thread and the tasks make. -/
structure Discipline (P : Program τ) (ok : Nat → τ → Prop) : Prop where
  main : Scoped ok 0 P.main
  body : ∀ t, ∀ c ∈ P.body t, ok (P.home t) c.task
  inline : ∀ n t, ok n t → ∀ c ∈ P.body t, ok n c.task

theorem Discipline.any (P : Program τ) : Discipline P fun _ _ => True where
  main := P.main_scoped.mono fun _ _ _ => trivial
  body _ _ _ := trivial
  inline _ _ _ _ _ := trivial

theorem Discipline.layered {P : Program τ} (h : P.Layered) :
    Discipline P fun n t => P.home t < n where
  main := P.main_scoped
  body := h
  inline _ t ht c hc := (h t c hc).trans ht

/-! ### The main thread -/

namespace MainAt

variable {ok : Nat → τ → Prop} {crews crews' : Nat → Crew (Job τ)} {n : Nat} {rest : List (Stmt τ)}

theorem construct_inv {m : Nat} (h : MainAt ok crews n (.construct m :: rest)) :
    (∀ p < n, (crews p).At 0 0) ∧ Scoped ok (n + 1) rest := by
  cases h with
  | code hat h => exact ⟨hat, h⟩

theorem call_inv {c : PoolCall τ} (h : MainAt ok crews n (.call c :: rest)) :
    (∀ p < n, (crews p).At 0 0) ∧ ok n c.task ∧ Scoped ok n rest := by
  cases h with
  | code hat h => exact ⟨hat, h⟩

theorem signalling_inv {p i : Nat} (h : MainAt ok crews (p + 1) (.signalling i :: rest)) :
    (crews p).At i 0 ∧ (∀ q < p, (crews q).At 0 0) ∧ Scoped ok p rest := by
  cases h with
  | code hat h =>
    cases i with
    | zero => exact ⟨hat p p.lt_succ_self, fun q hq => hat q (hq.trans p.lt_succ_self), h⟩
    | succ i => exact h.elim
  | signalling hat hothers hrest => exact ⟨hat, hothers, hrest⟩

theorem joining_inv {p i : Nat} (h : MainAt ok crews (p + 1) (.joining i :: rest)) :
    (crews p).At (crews p).threads.length i ∧ (∀ q < p, (crews q).At 0 0) ∧ Scoped ok p rest := by
  cases h with
  | code hat h => exact h.elim
  | joining hat hothers hrest => exact ⟨hat, hothers, hrest⟩

theorem nil_inv (h : MainAt ok crews n []) : n = 0 := by
  cases h with
  | code _ h => exact h

theorem destructor_pos {x : Stmt τ} (h : MainAt ok crews n (x :: rest))
    (hx : (∃ i, x = .signalling i) ∨ ∃ i, x = .joining i) : 0 < n := by
  cases h with
  | code _ h =>
    rcases n with _ | n
    · obtain ⟨i, rfl⟩ | ⟨i, rfl⟩ := hx <;> cases i <;> exact h.elim
    · exact n.succ_pos
  | _ => exact Nat.succ_pos _

theorem same {todo : List (Stmt τ)} (h : MainAt ok crews n todo)
    (hsame : ∀ p, (crews p).Same (crews' p)) : MainAt ok crews' n todo := by
  cases h with
  | code hat h => exact .code (fun p hp => (hat p hp).same (hsame p)) h
  | signalling hat hothers hrest =>
    exact .signalling (hat.same (hsame _)) (fun q hq => (hothers q hq).same (hsame q)) hrest
  | @joining p i rest hat hothers hrest =>
    refine .joining ?_ (fun q hq => (hothers q hq).same (hsame q)) hrest
    rw [(hsame p).length]
    exact hat.same (hsame p)

theorem at_of_lt {todo : List (Stmt τ)} (h : MainAt ok crews n todo) {p : Nat} (hp : p + 1 < n) :
    (crews p).At 0 0 := by
  cases h with
  | code hat _ => exact hat p (by omega)
  | signalling _ hothers _ => exact hothers p (by omega)
  | joining _ hothers _ => exact hothers p (by omega)

end MainAt

/-! ### The invariant is kept -/

section step

variable {P : Program τ} {ok : Nat → τ → Prop} {s s' : Pools τ} {k : Caller}

theorem Inv.eq_main (h : Inv P ok s) {x : Stmt τ} {rest : List (Stmt τ)} {a : Option τ}
    (hk : s.frames k = ⟨x :: rest, a⟩) (hx : ∀ c, x ≠ .call c) : k = .main := by
  cases k with
  | main => rfl
  | worker p i =>
    obtain ⟨c, rfl, -⟩ := h.calls p i x (by rw [hk]; exact List.mem_cons_self)
    exact absurd rfl (hx c)

theorem Inv.mainAt (h : Inv P ok s) {todo : List (Stmt τ)} {a : Option τ}
    (hk : s.frames .main = ⟨todo, a⟩) : MainAt ok s.crews s.size todo := by
  have hmain := h.main
  rwa [hk] at hmain

theorem Inv.lt_size (h : Inv P ok s) {p i : Nat} {c : Crew (Job τ)}
    (hstep : (s.crews p).threadFunction i = some c) : p < s.size := by
  by_contra hp
  rw [h.beyond p (by omega), Crew.threadFunction, Crew.start] at hstep
  cases hstep

theorem At_start (n : Nat) : (Crew.start n : Crew (Job τ)).At 0 0 where
  markers := rfl
  le := Nat.zero_le _
  joins i k hk := by
    rw [Crew.joins, Crew.start, List.map_replicate] at hk
    exact List.eq_of_mem_replicate (List.mem_of_getElem? hk)
  freed := rfl

/-- Every crew keeps what new crews have and the steps of crews keep; a dispatch is the next
statement of the thread. -/
theorem Inv.crews_move (h : Inv P ok s) (hm : Move P s k s') {Q : Crew (Job τ) → Prop}
    (hold : ∀ p, Q (s.crews p)) (hstart : ∀ n, Q (Crew.start n))
    (hstep : ∀ p a c, Crew.Step (s.crews p) a c → (∀ j, a = .dispatch j → p < s.size ∧
      ∃ b rest, s.frames k = ⟨.call b :: rest, none⟩ ∧ P.home b.task = p) → Q c) :
    ∀ p, Q (s'.crews p) := by
  have hset : ∀ {p c}, Q c → ∀ q, Q (Function.update s.crews p c q) := by
    intro p c hc
    rw [Function.forall_update_iff s.crews fun _ => Q]
    exact ⟨hc, fun q _ => hold q⟩
  cases hm with
  | construct => exact hset (hstart _)
  | dispatch hk hlive hne =>
    exact hset (hstep _ _ _ (.dispatch _ hne) fun _ _ => ⟨hlive, _, _, hk, rfl⟩)
  | execute hk hlive hnil =>
    exact hset (hstep _ _ _ (.execute _ hnil) fun _ _ => ⟨hlive, _, _, hk, rfl⟩)
  | signal hk hsize hlt =>
    obtain rfl := h.eq_main hk fun _ => nofun
    have hmain := h.mainAt hk
    rw [hsize] at hmain
    refine hset (hstep _ _ _ (.signal ?_) fun _ => nofun)
    rwa [hmain.signalling_inv.1.markers]
  | signalled => exact hold
  | join _ _ hjoin => exact hset (hstep _ _ _ (.join hjoin) fun _ => nofun)
  | joined => exact hset (hstart 0)
  | take _ htake => exact hset (hstep _ _ _ (.work htake.step) fun _ => nofun)
  | leave _ hleave => exact hset (hstep _ _ _ (.work hleave.step) fun _ => nofun)
  | finish _ hfinish =>
    rw [crews_finish]
    exact hset (hstep _ _ _ (.work hfinish.step) fun _ => nofun)

theorem Inv.crew_move (h : Inv P ok s) (hm : Move P s k s') :
    ∀ p, (Crew.lts (Job τ)).Reachable (s'.crews p) :=
  h.crews_move hm h.crew (fun n => .init ⟨n, rfl⟩) fun p _ _ hc _ => .step (h.crew p) hc

theorem Inv.beyond_move (h : Inv P ok s) (hm : Move P s k s') :
    ∀ p, s'.size ≤ p → s'.crews p = Crew.start 0 := by
  have hstep : ∀ {p}, p < s.size → ∀ c q, s.size ≤ q →
      Function.update s.crews p c q = Crew.start 0 := by
    intro p hp c q hq
    rw [Function.update_of_ne (by omega)]
    exact h.beyond q hq
  cases hm with
  | construct =>
    intro q hq
    rw [size_setFrame, size_construct] at hq
    rw [crews_setFrame, crews_construct, Function.update_of_ne (by omega)]
    exact h.beyond q (by omega)
  | dispatch _ hlive => exact hstep hlive _
  | execute _ hlive => exact hstep hlive _
  | signal _ hsize => exact hstep (by omega) _
  | signalled => exact h.beyond
  | join _ hsize => exact hstep (by omega) _
  | @joined _ _ p _ _ hsize =>
    intro q hq
    rw [crews_setFrame, crews_retire, Function.update_apply]
    split
    · rfl
    · next hne =>
      rw [size_setFrame, size_retire] at hq
      exact h.beyond q (by omega)
  | take _ htake => exact hstep (h.lt_size htake.step) _
  | leave _ hleave => exact hstep (h.lt_size hleave.step) _
  | finish _ hfinish =>
    rw [crews_finish, size_finish]
    exact hstep (h.lt_size hfinish.step) _

theorem Inv.home_move (h : Inv P ok s) (hm : Move P s k s') :
    ∀ p, ∀ j ∈ (s'.crews p).pending, P.home j.task = p := by
  have hstep : ∀ {p c}, (∀ j ∈ c.pending, P.home j.task = p) →
      ∀ q, ∀ j ∈ (Function.update s.crews p c q).pending, P.home j.task = q := by
    intro p c hc
    rw [Function.forall_update_iff s.crews fun q c => ∀ j ∈ Crew.pending c, P.home j.task = q]
    exact ⟨hc, fun q _ => h.home q⟩
  have hsame : ∀ {p c}, c.pending = (s.crews p).pending →
      ∀ q, ∀ j ∈ (Function.update s.crews p c q).pending, P.home j.task = q := by
    intro p c hc
    apply hstep
    rw [hc]
    exact h.home p
  have hstart : ∀ n p, ∀ j ∈ (Crew.start n : Crew (Job τ)).pending, P.home j.task = p := by
    intro n p j hj
    rw [Crew.pending_start] at hj
    exact absurd hj (Multiset.notMem_zero j)
  cases hm with
  | construct => exact hstep (hstart _ _)
  | @dispatch k c rest =>
    refine hstep fun j hj => ?_
    rw [Crew.pending, Crew.load_dispatch, Multiset.mem_add, Multiset.mem_singleton] at hj
    obtain rfl | hj := hj
    · rfl
    · exact h.home _ j hj
  | execute => exact hsame (Crew.load_execute _ _ _ _)
  | signal => exact hsame (Crew.load_signal _ _ _)
  | signalled => exact h.home
  | join _ _ hjoin => exact hsame (Crew.load_join _ _ hjoin)
  | joined => exact hstep (hstart _ _)
  | take _ htake => exact hsame htake.pending
  | leave _ hleave => exact hsame hleave.load
  | finish _ hfinish =>
    rw [crews_finish]
    refine hstep fun j hj => h.home _ j ?_
    rw [Crew.pending, hfinish.load]
    exact Multiset.mem_add.2 (.inr hj)

/-- A thread with a statement to execute is running a job, if it is a worker. -/
theorem Inv.current_ne (h : Inv P ok s) {x : Stmt τ} {rest : List (Stmt τ)} {a : Option τ}
    {p i : Nat} (hk : s.frames (.worker p i) = ⟨x :: rest, a⟩) : (s.crews p).current i ≠ none := by
  intro hnone
  rw [h.idle p i hnone] at hk
  cases hk

theorem Inv.idle_move (h : Inv P ok s) (hm : Move P s k s') :
    ∀ p i, (s'.crews p).current i = none → s'.frames (.worker p i) = .idle := by
  -- the thread `k` gets a new frame, while the threads run the jobs they did
  have hstep : ∀ {x rest a} (_ : s.frames k = ⟨x :: rest, a⟩) {q c} (_ : ∀ i,
      c.current i = (s.crews q).current i) (f : Frame τ), ∀ p i,
      (Function.update s.crews q c p).current i = none →
      Function.update s.frames k f (.worker p i) = .idle := by
    intro x rest a hk q c hc f p i hnone
    have hold : (s.crews p).current i = none := by
      rw [Function.update_apply] at hnone
      split at hnone
      · next hp => rw [hp, ← hc, hnone]
      · exact hnone
    have hne : Caller.worker p i ≠ k := by
      rintro rfl
      exact h.current_ne hk hold
    rw [Function.update_of_ne hne]
    exact h.idle p i hold
  have hjob : ∀ {q i} (_ : s.frames (.worker q i) = .idle) {c} (_ : ∀ i', i' ≠ i →
      c.current i' = (s.crews q).current i'), ∀ p i',
      (Function.update s.crews q c p).current i' = none → s.frames (.worker p i') = .idle := by
    intro q i hidle c hc p i' hnone
    by_cases hpi : p = q ∧ i' = i
    · rw [hpi.1, hpi.2, hidle]
    · apply h.idle
      rw [Function.update_apply] at hnone
      split at hnone
      · next hp => rw [hp, ← hc i' fun hi => hpi ⟨hp, hi⟩, hnone]
      · exact hnone
  have hbeyond : ∀ i, (s.crews s.size).current i = none := by
    intro i
    rw [h.beyond s.size le_rfl]
    rfl
  cases hm with
  | @construct _ n rest hk =>
    refine hstep hk (fun i => ?_) ⟨rest, none⟩
    rw [hbeyond]
    exact Crew.current_start _ i
  | dispatch hk => exact hstep hk (Crew.current_dispatch _ _) _
  | execute hk => exact hstep hk (Crew.current_execute _ _) _
  | signal hk => exact hstep hk (Crew.current_signal _) _
  | signalled hk =>
    intro p i hnone
    have hne : Caller.worker p i ≠ k := by
      rintro rfl
      exact h.current_ne hk hnone
    rw [frames_setFrame, Function.update_of_ne hne]
    exact h.idle p i hnone
  | join hk _ hjoin => exact hstep hk (Crew.current_join hjoin) _
  | @joined _ _ p rest hk hsize hle =>
    obtain rfl := h.eq_main hk fun _ => nofun
    have hmain := h.mainAt hk
    rw [hsize] at hmain
    refine hstep hk (fun i => ?_) ⟨rest, none⟩
    rw [Crew.current_start, hmain.joining_inv.1.current_joined (Crew.inv (h.crew _)) hle]
  | @take p i j c hidle htake =>
    intro q i' hnone
    have hne : Caller.worker q i' ≠ .worker p i := by
      rintro heq
      cases heq
      rw [crews_setFrame, crews_setCrew, Function.update_self, htake.after, if_pos rfl] at hnone
      cases hnone
    rw [frames_setFrame, Function.update_of_ne hne]
    exact hjob hidle (fun i' hi => by rw [htake.after, if_neg hi]) q i' hnone
  | leave hidle hleave => exact hjob hidle fun i' _ => hleave.after i'
  | @finish p i j c hidle hfinish =>
    intro q i' hnone
    rw [crews_finish] at hnone
    have hold := hjob hidle (fun i' hi => by rw [hfinish.after, if_neg hi]) q i' hnone
    rw [frames_finish, frames_setCrew, hold]
    split <;> rfl

theorem Inv.frame_move (h : Inv P ok s) (hm : Move P s k s') {Q : Nat → Frame τ → Prop}
    (hold : ∀ p i, Q p (s.frames (.worker p i)))
    (hresume : ∀ p i, Q p (s.frames (.worker p i)).resume)
    (hdispatch : ∀ p i c rest, s.frames (.worker p i) = ⟨.call c :: rest, none⟩ →
      Q p ⟨rest, c.awaited⟩)
    (hexecute : ∀ p i c rest, s.frames (.worker p i) = ⟨.call c :: rest, none⟩ →
      Q p ⟨(P.body c.task).map .call ++ rest, none⟩)
    (htake : ∀ t, Q (P.home t) ⟨(P.body t).map .call, none⟩) :
    ∀ p i, Q p (s'.frames (.worker p i)) := by
  have hset : ∀ f, (∀ p i, k = .worker p i → Q p f) → ∀ p i,
      Q p (Function.update s.frames k f (.worker p i)) := by
    intro f hf p i
    rw [Function.update_apply]
    split
    · next hk => exact hf p i hk.symm
    · exact hold p i
  -- a statement that is no call is one of the main thread
  have hmain : ∀ {x rest a}, s.frames k = ⟨x :: rest, a⟩ → (∀ c, x ≠ .call c) → ∀ f p i,
      Q p (Function.update s.frames k f (.worker p i)) := by
    intro x rest a hk hx f
    obtain rfl := h.eq_main hk hx
    exact hset f fun p i => nofun
  cases hm with
  | construct hk => exact hmain hk (fun _ => nofun) _
  | dispatch hk =>
    refine hset _ fun p i hki => ?_
    rw [hki] at hk
    exact hdispatch p i _ _ hk
  | execute hk =>
    refine hset _ fun p i hki => ?_
    rw [hki] at hk
    exact hexecute p i _ _ hk
  | signal hk => exact hmain hk (fun _ => nofun) _
  | signalled hk => exact hmain hk (fun _ => nofun) _
  | join hk => exact hmain hk (fun _ => nofun) _
  | joined hk => exact hmain hk (fun _ => nofun) _
  | @take p i j c _ htakes =>
    have hhome : P.home j.task = p := by
      refine h.home p j (Crew.mem_pending.2 (.inl ?_))
      rw [htakes.queued]
      exact List.mem_cons_self
    refine hset _ fun q i' hki => ?_
    cases hki
    rw [← hhome]
    exact htake j.task
  | leave => exact hold
  | finish =>
    intro p i
    rw [frames_finish, frames_setCrew]
    split
    · exact hresume p i
    · exact hold p i

theorem Inv.calls_move (hd : Discipline P ok) (h : Inv P ok s) (hm : Move P s k s') :
    ∀ p i, ∀ x ∈ (s'.frames (.worker p i)).todo, ∃ c, x = .call c ∧ ok p c.task := by
  have hcall : ∀ {p i c rest}, s.frames (.worker p i) = ⟨.call c :: rest, none⟩ →
      ok p c.task ∧ ∀ x ∈ rest, ∃ c, x = .call c ∧ ok p c.task := by
    intro p i c rest hk
    have hcalls := h.calls p i
    rw [hk, List.forall_mem_cons] at hcalls
    obtain ⟨⟨c', hc, hok⟩, hrest⟩ := hcalls
    cases hc
    exact ⟨hok, hrest⟩
  refine h.frame_move (Q := fun p f => ∀ x ∈ f.todo, ∃ c, x = .call c ∧ ok p c.task) hm h.calls
    h.calls (fun p i c rest hk => (hcall hk).2) (fun p i c rest hk => ?_) fun t => ?_
  · rw [List.forall_mem_append, List.forall_mem_map]
    exact ⟨fun b hb => ⟨b, rfl, hd.inline p c.task (hcall hk).1 b hb⟩, (hcall hk).2⟩
  · rw [List.forall_mem_map]
    exact fun b hb => ⟨b, rfl, hd.body t b hb⟩

theorem mem_awaited {c : PoolCall τ} {t : τ} (h : t ∈ c.awaited) : t = c.task := by
  rw [PoolCall.awaited] at h
  split at h <;> cases h
  rfl

theorem Inv.awaits_move (h : Inv P ok s) (hm : Move P s k s') :
    ∀ p i, ∀ t ∈ (s'.frames (.worker p i)).awaited, ok p t := by
  refine h.frame_move (Q := fun p f => ∀ t ∈ f.awaited, ok p t) hm h.awaits ?_ ?_ ?_ ?_
  · exact fun p i t ht => by cases ht
  · intro p i c rest hk t ht
    obtain ⟨c', hc, hok⟩ := h.calls p i (.call c) (by rw [hk]; exact List.mem_cons_self)
    cases hc
    rwa [mem_awaited ht]
  · exact fun p i c rest hk t ht => by cases ht
  · exact fun t u hu => by cases hu

theorem owed_update {todo todo' : List (Stmt τ)} (hk : s.frames k = ⟨todo, none⟩) (k' : Caller) :
    (Function.update s.frames k ⟨todo', none⟩ k').owed = (s.frames k').owed := by
  rw [Function.update_apply]
  split
  · next h => rw [h, hk, Frame.owed_none, Frame.owed_none]
  · rfl

theorem Inv.owed_move (h : Inv P ok s) (hm : Move P s k s') :
    ∀ k, ∃ t, HasTotal (Crew.owed k) s'.crews t ∧
      t + (s'.retired.map (Crew.owed k)).sum = (s'.frames k).owed := by
  -- a crew owes what it owed before
  have hsame : ∀ {q : Nat} {c : Crew (Job τ)} {k' : Caller},
      c.owed k' = (s.crews q).owed k' →
      ∃ t, HasTotal (Crew.owed k') (Function.update s.crews q c) t ∧
        t + (s.retired.map (Crew.owed k')).sum = (s.frames k').owed := by
    intro q c k' hc
    obtain ⟨t, ht, hsum⟩ := h.owed k'
    exact ⟨t, ht.update_same hc, hsum⟩
  intro k'
  cases hm with
  | construct hk =>
    rw [frames_setFrame, frames_construct, owed_update hk]
    refine hsame ?_
    rw [h.beyond s.size le_rfl, Crew.owed, Crew.load_start, Crew.owed, Crew.load_start]
  | @dispatch _ c rest hk =>
    obtain ⟨t, ht, hsum⟩ := h.owed k'
    obtain ⟨others, rfl, hset⟩ := ht.split (P.home c.task)
    refine ⟨_, hset _, ?_⟩
    rw [Crew.owed, Crew.load_dispatch, add_assoc, add_assoc, ← add_assoc (Crew.load _ _ _)]
    rw [frames_setFrame, frames_setCrew, Function.update_apply]
    split
    · next hkk =>
      rw [hkk, hk, Frame.owed_none] at hsum
      rw [hkk, Frame.owed_awaited c k]
      refine (congrArg (Crew.owedBy k (c.job k) + ·) hsum).trans ?_
      exact add_zero _
    · next hkk =>
      rw [Crew.owedBy_of_ne c hkk, zero_add]
      exact hsum
  | execute hk =>
    rw [frames_setFrame, frames_setCrew, owed_update hk]
    exact hsame (Crew.load_execute _ _ _ _)
  | signal hk =>
    rw [frames_setFrame, frames_setCrew, owed_update hk]
    exact hsame (Crew.load_signal _ _ _)
  | signalled hk =>
    rw [frames_setFrame, owed_update hk]
    exact h.owed k'
  | join hk _ hjoin =>
    rw [frames_setFrame, frames_setCrew, owed_update hk]
    exact hsame (Crew.load_join _ _ hjoin)
  | @joined _ _ p rest hk =>
    rw [frames_setFrame, frames_retire, owed_update hk]
    obtain ⟨t, ht, hsum⟩ := h.owed k'
    obtain ⟨others, rfl, hset⟩ := ht.split p
    refine ⟨_, hset _, ?_⟩
    rw [retired_setFrame, retired_retire, List.map_cons, List.sum_cons, ← hsum, Crew.owed,
      Crew.load_start, zero_add, ← add_assoc, add_comm others]
    rfl
  | take hidle htake =>
    rw [frames_setFrame, frames_setCrew, owed_update hidle]
    exact hsame (htake.owed k')
  | leave _ hleave => exact hsame hleave.load
  | @finish p _ j c _ hfinish =>
    obtain ⟨t, ht, hsum⟩ := h.owed k'
    obtain ⟨others, rfl, hset⟩ := ht.split p
    rw [crews_finish, retired_finish, frames_finish]
    refine ⟨_, hset _, ?_⟩
    rw [Crew.owed, hfinish.load, add_assoc, add_assoc] at hsum
    split
    · next hj =>
      -- the wrapper is the one that the caller waits for, and nothing else is owed
      rw [Crew.owedBy, if_pos hj] at hsum
      have hmem : j.task ∈ (s.frames k').owed := by
        rw [← hsum]
        exact Multiset.mem_add.2 (.inl (Multiset.mem_singleton_self _))
      rw [Frame.owed, Frame.mem_owed.1 hmem] at hsum
      have hrest : Crew.owed k' c + (others + (s.retired.map (Crew.owed k')).sum) = 0 := by
        apply add_left_cancel (a := ({j.task} : Multiset τ))
        rw [add_zero]
        exact hsum
      rw [Frame.owed_resume, add_assoc]
      exact hrest
    · next hj =>
      rw [Crew.owedBy, if_neg hj, zero_add] at hsum
      rw [← add_assoc] at hsum
      exact hsum

theorem same_update {q : Nat} {c : Crew (Job τ)} (hc : (s.crews q).Same c) :
    ∀ p, (s.crews p).Same (Function.update s.crews q c p) := by
  rw [Function.forall_update_iff s.crews fun p c => Crew.Same (s.crews p) c]
  exact ⟨hc, fun p _ => ⟨rfl, rfl, rfl⟩⟩

theorem at_update {p : Nat} (h : ∀ q < p, (s.crews q).At 0 0) (c : Crew (Job τ)) :
    ∀ q < p, (Function.update s.crews p c q).At 0 0 := by
  intro q hq
  rw [Function.update_of_ne (by omega)]
  exact h q hq

theorem Inv.main_move (hd : Discipline P ok) (h : Inv P ok s) (hm : Move P s k s') :
    MainAt ok s'.crews s'.size (s'.frames .main).todo := by
  -- a worker leaves the main thread where it is
  have hworker : ∀ {q c}, (s.crews q).Same c →
      MainAt ok (Function.update s.crews q c) s.size (s.frames .main).todo :=
    fun hc => h.main.same (same_update hc)
  cases hm with
  | construct hk =>
    obtain rfl := h.eq_main hk fun _ => nofun
    obtain ⟨hat, hrest⟩ := (h.mainAt hk).construct_inv
    rw [frames_setFrame, Function.update_self]
    refine .code (fun p hp => ?_) hrest
    rw [crews_setFrame, crews_construct, Function.update_apply]
    split
    · exact At_start _
    · next hne =>
      rw [size_setFrame, size_construct] at hp
      exact hat p (by omega)
  | @dispatch _ c rest hk =>
    have hsame := Crew.same_dispatch (s.crews (P.home c.task)) (c.job k)
    cases k with
    | main =>
      obtain ⟨hat, -, hrest⟩ := (h.mainAt hk).call_inv
      rw [frames_setFrame, Function.update_self]
      exact (MainAt.code hat hrest).same (same_update hsame)
    | worker p i =>
      rw [frames_setFrame, Function.update_of_ne (by nofun)]
      exact hworker hsame
  | @execute _ c rest hk =>
    have hsame := Crew.same_execute (s.crews (P.home c.task)) ⟨c.task, none⟩
    cases k with
    | main =>
      obtain ⟨hat, hok, hrest⟩ := (h.mainAt hk).call_inv
      rw [frames_setFrame, Function.update_self]
      have hinline := Scoped.calls_append (hd.inline s.size c.task hok) hrest
      exact (MainAt.code hat hinline).same (same_update hsame)
    | worker p i =>
      rw [frames_setFrame, Function.update_of_ne (by nofun)]
      exact hworker hsame
  | @signal _ i p rest hk hsize hlt =>
    obtain rfl := h.eq_main hk fun _ => nofun
    have hmain := h.mainAt hk
    rw [hsize] at hmain
    obtain ⟨hat, hothers, hrest⟩ := hmain.signalling_inv
    rw [frames_setFrame, Function.update_self, size_setFrame, size_setCrew, hsize]
    refine .signalling ?_ (at_update hothers _) hrest
    rw [crews_setFrame, crews_setCrew, Function.update_self]
    exact hat.signal hlt
  | @signalled _ i p rest hk hsize hle =>
    obtain rfl := h.eq_main hk fun _ => nofun
    have hmain := h.mainAt hk
    rw [hsize] at hmain
    obtain ⟨hat, hothers, hrest⟩ := hmain.signalling_inv
    obtain rfl := Nat.le_antisymm hle hat.le
    rw [frames_setFrame, Function.update_self, size_setFrame, hsize]
    exact .joining hat hothers hrest
  | @join _ i p rest c hk hsize hjoin =>
    obtain rfl := h.eq_main hk fun _ => nofun
    have hmain := h.mainAt hk
    rw [hsize] at hmain
    obtain ⟨hat, hothers, hrest⟩ := hmain.joining_inv
    rw [frames_setFrame, Function.update_self, size_setFrame, size_setCrew, hsize]
    refine .joining ?_ (at_update hothers _) hrest
    rw [crews_setFrame, crews_setCrew, Function.update_self, (Crew.pushed_of_join hjoin).2]
    exact hat.join hjoin
  | @joined _ i p rest hk hsize hle =>
    obtain rfl := h.eq_main hk fun _ => nofun
    have hmain := h.mainAt hk
    rw [hsize] at hmain
    obtain ⟨-, hothers, hrest⟩ := hmain.joining_inv
    rw [frames_setFrame, Function.update_self]
    exact .code (at_update hothers _) hrest
  | take _ htake =>
    rw [frames_setFrame, Function.update_of_ne (by nofun)]
    exact hworker (Crew.same_work htake.step)
  | leave _ hleave => exact hworker (Crew.same_work hleave.step)
  | finish _ hfinish =>
    rw [todo_finish, crews_finish, size_finish]
    exact hworker (Crew.same_work hfinish.step)

theorem Inv.move (hd : Discipline P ok) (h : Inv P ok s) (hm : Move P s k s') : Inv P ok s' where
  crew := h.crew_move hm
  beyond := h.beyond_move hm
  home := h.home_move hm
  idle := h.idle_move hm
  calls := h.calls_move hd hm
  awaits := h.awaits_move hm
  owed := h.owed_move hm
  main := h.main_move hd hm

theorem Inv.start (hd : Discipline P ok) : Inv P ok (start P) where
  crew _ := .init ⟨0, rfl⟩
  beyond _ _ := rfl
  home p j hj := by
    rw [Pools.start, Crew.pending_start] at hj
    exact absurd hj (Multiset.notMem_zero j)
  idle _ _ _ := rfl
  calls _ _ x hx := by cases hx
  awaits _ _ t ht := by cases ht
  owed k := by
    refine ⟨0, .of_zero fun p => Crew.load_start _ _ 0, ?_⟩
    have hidle : ((Pools.start P).frames k).owed = 0 := by
      cases k <;> rfl
    rw [hidle]
    rfl
  main := .code (fun p hp => absurd hp (Nat.not_lt_zero p)) hd.main

theorem inv (hd : Discipline P ok) (h : (lts P).Reachable s) : Inv P ok s := by
  refine h.invariant ?_ fun _ _ _ _ hinv hstep => hinv.move hd (step_cases hstep)
  rintro s rfl
  exact Inv.start hd

end step

end Pools

end Nanonet
