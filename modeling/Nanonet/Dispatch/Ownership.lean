import Nanonet.Dispatch.Drain
import Nanonet.Dispatch.ThreadPool

/-!
# Who owns a queue and its threads

Moves transfer `tasks` and `workers` one after the other, and only the destructor stops the threads.
In every reachable world a pool still holds a queue together with all threads that refer to it, and
no queue is held by two objects (`World.inv`). So every step of the world is a step of at most one
crew (`step_crew`), and what was proved about crews holds of every pool, whatever moves it went
through (`crew_reachable`).
-/

namespace Nanonet

namespace Crew

variable {τ : Type*} {c c' : Crew τ}

/-- How often each thread was joined. -/
def joins (c : Crew τ) : List Nat := c.threads.map Worker.joins

theorem length_joins (c : Crew τ) : c.joins.length = c.threads.length := List.length_map _

/-- What a destructor depends on is the same. -/
structure Same (c c' : Crew τ) : Prop where
  markers : markers c'.tasks.pushed = markers c.tasks.pushed
  joins : c'.joins = c.joins
  freed : c'.freed = c.freed

theorem Same.length (h : c.Same c') : c'.threads.length = c.threads.length := by
  rw [← length_joins, h.joins, length_joins]

theorem same_dispatch (c : Crew τ) (t : τ) : c.Same (c.dispatch t) :=
  ⟨by simp [dispatch, Channel.push], rfl, rfl⟩

theorem same_execute (c : Crew τ) (t : τ) : c.Same (c.execute t) := ⟨rfl, rfl, rfl⟩

theorem same_work {i : Nat} (h : c.threadFunction i = some c') : c.Same c' := by
  obtain ⟨ws, w, ws', hthreads, hcases⟩ := threadFunction_cases h
  obtain ⟨t, rest, -, -, rfl⟩ | ⟨rest, -, -, rfl⟩ | ⟨t, -, rfl⟩ := hcases <;>
    exact ⟨rfl, by simp [joins, hthreads], rfl⟩

theorem join_eq_some {i : Nat} (h : c.join i = some c') :
    c'.tasks = c.tasks ∧ c'.joins = c.joins.set i 1 ∧ c'.freed = c.freed := by
  rw [join] at h
  split at h
  · cases h
    exact ⟨rfl, by rw [joins, joins, List.map_set], rfl⟩
  · cases h

theorem joinable_iff {i : Nat} : c.joinable i = true ↔ c.joins[i]? = some 0 := by
  rw [joinable, joins, List.getElem?_map]
  cases c.threads[i]? <;> simp

end Crew

/-- The crew at one place changes, and no other. -/
structure Replaces {τ : Type*} (crews crews' : List (Crew τ)) (q : Nat) (c c' : Crew τ) : Prop where
  before : crews[q]? = some c
  after : crews'[q]? = some c'
  others : ∀ q', q' ≠ q → crews'[q']? = crews[q']?

section replaces

variable {τ : Type*} {crews crews' : List (Crew τ)} {q : Nat} {c c' : Crew τ}

theorem Replaces.set (h : crews[q]? = some c) (c' : Crew τ) :
    Replaces crews (crews.set q c') q c c' where
  before := h
  after := by
    obtain ⟨hlt, -⟩ := List.getElem?_eq_some_iff.1 h
    exact List.getElem?_set_self hlt
  others _ hne := List.getElem?_set_ne (Ne.symm hne)

theorem Replaces.modify (h : crews[q]? = some c) (f : Crew τ → Crew τ) :
    Replaces crews (crews.modify q f) q c (f c) where
  before := h
  after := by rw [List.getElem?_modify_eq, h]; rfl
  others _ hne := List.getElem?_modify_ne f crews (Ne.symm hne)

theorem Replaces.cases (h : Replaces crews crews' q c c') {q' : Nat} {d : Crew τ}
    (hd : crews'[q']? = some d) : (q' = q ∧ d = c') ∨ (q' ≠ q ∧ crews[q']? = some d) := by
  by_cases hq : q' = q
  · subst hq
    rw [h.after] at hd
    exact .inl ⟨rfl, (Option.some.inj hd).symm⟩
  · rw [h.others q' hq] at hd
    exact .inr ⟨hq, hd⟩

end replaces

/-! ### The invariant -/

def handles (q n : Nat) : List (Nat × Nat) := (List.range n).map fun i => (q, i)

theorem numWorkers_handles (q n : Nat) : ThreadPool.numWorkers ⟨some q, handles q n⟩ = n := by
  rw [ThreadPool.numWorkers, handles, List.length_map, List.length_range]

/-- A crew of which `m` markers were queued and the first `j` threads were joined. -/
structure Crew.At {τ : Type*} (c : Crew τ) (m j : Nat) : Prop where
  markers : markers c.tasks.pushed = m
  le : m ≤ c.threads.length
  joins : ∀ i k, c.joins[i]? = some k → k = if i < j then 1 else 0
  freed : c.freed = false

namespace Crew.At

variable {τ : Type*} {c c' : Crew τ} {m j : Nat}

theorem thread (h : c.At m j) {i : Nat} {w : Worker τ} (hi : c.threads[i]? = some w) :
    w.joins = if i < j then 1 else 0 :=
  h.joins i w.joins (by rw [Crew.joins, List.getElem?_map, hi]; rfl)

theorem same (h : c.At m j) (hsame : c.Same c') : c'.At m j where
  markers := hsame.markers.trans h.markers
  le := by rw [hsame.length]; exact h.le
  joins := by rw [hsame.joins]; exact h.joins
  freed := hsame.freed.trans h.freed

theorem signal (h : c.At m j) (hlt : m < c.threads.length) : c.signal.At (m + 1) j where
  markers := by simp [Crew.signal, Channel.push, h.markers]
  le := hlt
  joins := h.joins
  freed := h.freed

theorem next (h : c.At m j) (hlt : j < c.threads.length) : c.joins[j]? = some 0 := by
  have hlen : j < c.joins.length := by rwa [length_joins]
  have hk := h.joins j _ (List.getElem?_eq_getElem hlen)
  rw [List.getElem?_eq_getElem hlen, hk, if_neg (Nat.lt_irrefl j)]

theorem join (h : c.At m j) (hjoin : c.join j = some c') : c'.At m (j + 1) := by
  obtain ⟨htasks, hjoins, hfreed⟩ := join_eq_some hjoin
  refine ⟨by rw [htasks]; exact h.markers, ?_, fun k n hn => ?_, hfreed.trans h.freed⟩
  · rw [(pushed_of_join hjoin).2]
    exact h.le
  · rw [hjoins, List.getElem?_set] at hn
    split_ifs at hn with hjk hlt
    · obtain rfl : 1 = n := Option.some.inj hn
      rw [if_pos (by omega)]
    · rw [h.joins k n hn]
      have hiff : k < j ↔ k < j + 1 := by omega
      simp only [hiff]

theorem joined (h : c.At m j) (hge : c.threads.length ≤ j) : ∀ k ∈ c.joins, k = 1 := by
  intro k hk
  obtain ⟨i, hi⟩ := List.mem_iff_getElem?.1 hk
  have hlt : i < c.joins.length := (List.getElem?_eq_some_iff.1 hi).1
  rw [length_joins] at hlt
  rw [h.joins i k hi, if_pos (by omega)]

end Crew.At

/-- A pool holds a queue together with all its threads, or neither. -/
inductive Holds {τ : Type*} (crews : List (Crew τ)) : ThreadPool → Nat → Nat → Prop where
  | nothing {m j : Nat} : Holds crews ⟨none, []⟩ m j
  | crew {q m j : Nat} {c : Crew τ} : crews[q]? = some c → c.At m j →
      Holds crews ⟨some q, handles q c.threads.length⟩ m j

section holds

variable {τ : Type*} {crews crews' : List (Crew τ)} {p : ThreadPool} {q m j : Nat} {c c' : Crew τ}

theorem Holds.cases (h : Holds crews p m j) : p = ⟨none, []⟩ ∨
    ∃ q c, crews[q]? = some c ∧ c.At m j ∧ p = ⟨some q, handles q c.threads.length⟩ := by
  cases h with
  | nothing => exact .inl rfl
  | crew hc hat => exact .inr ⟨_, _, hc, hat, rfl⟩

theorem Holds.of_ne (h : Holds crews p m j) (hr : Replaces crews crews' q c c')
    (hne : p.tasks ≠ some q) : Holds crews' p m j := by
  cases h with
  | nothing => exact .nothing
  | @crew q' _ _ d hd hat =>
    refine .crew ?_ hat
    rw [hr.others q' fun heq => hne (by rw [heq])]
    exact hd

theorem Holds.of_same (h : Holds crews p m j) (hr : Replaces crews crews' q c c')
    (hsame : c.Same c') : Holds crews' p m j := by
  by_cases hne : p.tasks = some q
  · cases h with
    | nothing => cases hne
    | @crew q' _ _ d hd hat =>
      cases hne
      rw [hr.before] at hd
      cases hd
      rw [← hsame.length]
      exact .crew hr.after (hat.same hsame)
  · exact h.of_ne hr hne

end holds

namespace World

variable {Oid τ : Type*} {s s' : World Oid τ} {o : Oid}

/-- Every object holds a queue together with its threads or neither, and no queue is held twice. A
process that was terminated in the middle of an assignment leaves the live objects aside. -/
structure Inv (s : World Oid τ) : Prop where
  holds : ∀ o p m j, (s.objects o).stage = some (p, m, j) →
    (s.terminated = true → ¬ (s.objects o).IsLive) → Holds s.crews p m j
  unique : ∀ o o' q, (s.objects o).queue = some q → (s.objects o').queue = some q → o = o'

theorem Inv.holds_of_running (h : s.Inv) (hrun : s.terminated = false) {p : ThreadPool} {m j : Nat}
    (hstage : (s.objects o).stage = some (p, m, j)) : Holds s.crews p m j :=
  h.holds o p m j hstage fun hterm => by rw [hrun] at hterm; cases hterm

theorem queue_of_stage {x : PoolObject} {p : ThreadPool} {m j : Nat}
    (h : x.stage = some (p, m, j)) : x.queue = p.tasks := by
  rw [PoolObject.queue, h]
  rfl

theorem exists_stage_of_queue {x : PoolObject} {q : Nat} (h : x.queue = some q) :
    ∃ p m j, x.stage = some (p, m, j) ∧ p.tasks = some q := by
  rw [PoolObject.queue, Option.bind_eq_some_iff] at h
  obtain ⟨⟨p, m, j⟩, hstage, htasks⟩ := h
  exact ⟨p, m, j, hstage, htasks⟩

theorem Inv.same (h : s.Inv) {crews : List (Crew τ)} {q : Nat} {c c' : Crew τ}
    (hr : Replaces s.crews crews q c c') (hsame : c.Same c') : { s with crews := crews }.Inv where
  holds o p m j hstage hlive := (h.holds o p m j hstage hlive).of_same hr hsame
  unique := h.unique

variable [DecidableEq Oid]

theorem Inv.object (h : s.Inv) (hrun : s.terminated = false) {o : Oid} {x : PoolObject}
    {crews : List (Crew τ)} {t : Bool}
    (hqueue : ∀ q o', x.queue = some q → o' ≠ o → (s.objects o').queue ≠ some q)
    (hself : ∀ p m j, x.stage = some (p, m, j) → (t = true → ¬ x.IsLive) → Holds crews p m j)
    (hother : ∀ o' p m j, o' ≠ o → (s.objects o').stage = some (p, m, j) → Holds s.crews p m j →
      Holds crews p m j) :
    (World.mk (Function.update s.objects o x) crews t).Inv where
  holds o' p m j hstage hlive := by
    dsimp only at hstage hlive ⊢
    by_cases ho : o' = o
    · subst ho
      rw [Function.update_self] at hstage hlive
      exact hself p m j hstage hlive
    · rw [Function.update_of_ne ho] at hstage
      exact hother o' p m j ho hstage (h.holds_of_running hrun hstage)
  unique o₁ o₂ q h₁ h₂ := by
    dsimp only at h₁ h₂
    by_cases ho₁ : o₁ = o <;> by_cases ho₂ : o₂ = o
    · rw [ho₁, ho₂]
    · rw [ho₁, Function.update_self] at h₁
      rw [Function.update_of_ne ho₂] at h₂
      exact absurd h₂ (hqueue q o₂ h₁ ho₂)
    · rw [ho₂, Function.update_self] at h₂
      rw [Function.update_of_ne ho₁] at h₁
      exact absurd h₁ (hqueue q o₁ h₂ ho₁)
    · rw [Function.update_of_ne ho₁] at h₁
      rw [Function.update_of_ne ho₂] at h₂
      exact h.unique o₁ o₂ q h₁ h₂

/-! ### What a step does -/

/-- The effect of each step on a world that satisfies the invariant. -/
inductive Effect (s : World Oid τ) : PoolOp Oid τ → World Oid τ → Prop where
  | thrown (l : PoolOp Oid τ) : Effect s l s
  | construct {o : Oid} {n : Int} {startable : Nat} : s.objects o = .absent →
      Effect s (.construct o n startable)
        ⟨Function.update s.objects o (.live ⟨some s.crews.length, handles s.crews.length n.toNat⟩),
          s.crews ++ [Crew.start n.toNat], s.terminated⟩
  -- a thread cannot be started behind others of its pool
  | startFails {o : Oid} {n : Int} {startable : Nat} : startable ≠ 0 → startable < n.toNat →
      Effect s (.construct o n startable)
        ⟨s.objects, s.crews ++ [Crew.start startable], true⟩
  | dispatch {caller : Option (Nat × Nat)} {o : Oid} {t : τ} {p : ThreadPool} {m j q : Nat}
      {c c' : Crew τ} {crews : List (Crew τ)} : (s.objects o).stage = some (p, m, j) → c.At m j →
      p.numWorkers = c.threads.length → Replaces s.crews crews q c c' →
      Crew.Step c (.dispatch t) c' → c.Same c' →
      Effect s (.dispatch caller o t) { s with crews := crews }
  | work {q i : Nat} {c c' : Crew τ} {crews : List (Crew τ)} : Replaces s.crews crews q c c' →
      c.threadFunction i = some c' → Effect s (.work q i) { s with crews := crews }
  | moveConstruct {dst src : Oid} {p : ThreadPool} : s.objects dst = .absent →
      s.objects src = .live p → Effect s (.moveConstruct dst src) (s.moveConstruct dst src p)
  | moveAssign {dst src : Oid} {d p : ThreadPool} : s.objects dst = .live d →
      s.objects src = .live p → Effect s (.moveAssign dst src) (s.moveAssign dst src d p)
  -- the destructor: of a moved-from pool, between its loops, in one of them, at the end
  | vanish {o : Oid} {p : ThreadPool} {m j : Nat} : (s.objects o).stage = some (p, m, j) →
      p.tasks = none →
      Effect s (.destroy o) ⟨Function.update s.objects o .absent, s.crews, s.terminated⟩
  | phase {o : Oid} {x : PoolObject} {p : ThreadPool} {m j m' j' : Nat} :
      (s.objects o).stage = some (p, m, j) → x.stage = some (p, m', j') → Holds s.crews p m' j' →
      Effect s (.destroy o) ⟨Function.update s.objects o x, s.crews, s.terminated⟩
  | advance {o : Oid} {x : PoolObject} {p : ThreadPool} {m j m' j' q : Nat} {c c' : Crew τ}
      {a : Crew.Action τ} {crews : List (Crew τ)} : (s.objects o).stage = some (p, m, j) →
      p.tasks = some q → Replaces s.crews crews q c c' → Crew.Step c a c' →
      (∀ t, a ≠ .dispatch t) → c'.freed = false → x.stage = some (p, m', j') →
      Holds crews p m' j' →
      Effect s (.destroy o) ⟨Function.update s.objects o x, crews, s.terminated⟩
  | free {o : Oid} {p : ThreadPool} {m j q : Nat} {c : Crew τ} {crews : List (Crew τ)} :
      (s.objects o).stage = some (p, m, j) → p.tasks = some q → Replaces s.crews crews q c c.free →
      (∀ k ∈ c.joins, k = 1) →
      Effect s (.destroy o) ⟨Function.update s.objects o .absent, crews, s.terminated⟩

omit [DecidableEq Oid] in
theorem destroyThreads_eq {workers : List (Nat × Nat)}
    (h : ∀ w ∈ workers, s.joinable w = false) : s.destroyThreads workers = s := by
  have hany : workers.any s.joinable = false := by simpa using h
  rw [destroyThreads, hany, Bool.or_false]

omit [DecidableEq Oid] in
theorem destroyThreads_nil : s.destroyThreads [] = s :=
  destroyThreads_eq fun _ hw => absurd hw List.not_mem_nil

omit [DecidableEq Oid] in
theorem joinable_iff {q i : Nat} {c : Crew τ} (hc : s.crews[q]? = some c) :
    s.joinable (q, i) = true ↔ c.joins[i]? = some 0 := by
  rw [joinable, hc]
  exact Crew.joinable_iff

omit [DecidableEq Oid] in
theorem not_joinable_of_joined {q : Nat} {c : Crew τ} (hc : s.crews[q]? = some c)
    (hjoined : ∀ k ∈ c.joins, k = 1) {n : Nat} : ∀ w ∈ handles q n, s.joinable w = false := by
  intro w hw
  obtain ⟨i, -, rfl⟩ := List.mem_map.1 hw
  rw [Bool.eq_false_iff, ne_eq, joinable_iff hc]
  intro hzero
  exact absurd (hjoined 0 (List.mem_of_getElem? hzero)) (by decide)

omit [DecidableEq Oid] in
theorem threads_eq_nil_of_not_joinable {q : Nat} {c : Crew τ} (hc : s.crews[q]? = some c)
    (hat : c.At 0 0) (hany : (handles q c.threads.length).any s.joinable = false) :
    c.threads = [] := by
  by_contra hne
  have hpos : 0 < c.threads.length := List.length_pos_iff.2 hne
  have hjoinable : s.joinable (q, 0) = true := (joinable_iff hc).2 (hat.next hpos)
  have hmem : (q, 0) ∈ handles q c.threads.length :=
    List.mem_map_of_mem (List.mem_range.2 hpos)
  rw [List.any_eq_false] at hany
  exact hany _ hmem hjoinable

theorem effect_dispatch (h : s.Inv) (hrun : s.terminated = false)
    {caller : Option (Nat × Nat)} {t : τ} (hstep : s.step (.dispatch caller o t) = some s') :
    Effect s (.dispatch caller o t) s' := by
  rw [step] at hstep
  split at hstep
  · next p m j hstage =>
    split at hstep
    · cases hstep
      rw [dispatch]
      obtain rfl | ⟨q, c, hc, hat, rfl⟩ := (h.holds_of_running hrun hstage).cases
      · exact .thrown _
      · have hlen := numWorkers_handles q c.threads.length
        dsimp only
        split
        · next hpos =>
          have hne : c.threads ≠ [] := by
            rw [hlen] at hpos
            exact List.length_pos_iff.1 hpos
          exact .dispatch hstage hat hlen (.modify hc _) (.dispatch t hne) (c.same_dispatch t)
        · next hzero =>
          have hnil : c.threads = [] := by
            rw [hlen] at hzero
            exact List.length_eq_zero_iff.1 (Nat.eq_zero_of_not_pos hzero)
          exact .dispatch hstage hat hlen (.modify hc _) (.execute t hnil) (c.same_execute t)
    · cases hstep
  · cases hstep

theorem effect_signalling (h : s.Inv) (hrun : s.terminated = false) {p : ThreadPool} {i : Nat}
    (ho : s.objects o = .signalling p i) (hstep : s.destroy o = some s') :
    Effect s (.destroy o) s' := by
  have hstage : (s.objects o).stage = some (p, i, 0) := by rw [ho]; rfl
  rw [destroy, ho] at hstep
  dsimp only at hstep
  split at hstep
  · next hlt =>
    cases hstep
    obtain rfl | ⟨q, c, hc, hat, rfl⟩ := (h.holds_of_running hrun hstage).cases
    · cases hlt
    · rw [numWorkers_handles] at hlt
      have hr := Replaces.modify hc Crew.signal
      have hsignal : Crew.Step c .signal c.signal := .signal (by rw [hat.markers]; exact hlt)
      exact .advance hstage rfl hr hsignal (by nofun) hat.freed rfl
        (.crew (c := c.signal) hr.after (hat.signal hlt))
  · next hge =>
    cases hstep
    refine .phase hstage rfl ?_
    obtain rfl | ⟨q, c, hc, hat, rfl⟩ := (h.holds_of_running hrun hstage).cases
    · exact .nothing
    · rw [numWorkers_handles] at hge ⊢
      obtain rfl : i = c.threads.length := Nat.le_antisymm hat.le (Nat.le_of_not_lt hge)
      exact .crew hc hat

theorem effect_joining (h : s.Inv) (hrun : s.terminated = false) {p : ThreadPool} {i : Nat}
    (ho : s.objects o = .joining p i) (hstep : s.destroy o = some s') :
    Effect s (.destroy o) s' := by
  have hstage : (s.objects o).stage = some (p, p.numWorkers, i) := by rw [ho]; rfl
  rw [destroy, ho] at hstep
  dsimp only at hstep
  obtain rfl | ⟨q, c, hc, hat, rfl⟩ := (h.holds_of_running hrun hstage).cases
  · rw [List.getElem?_nil] at hstep
    dsimp only at hstep
    rw [destroyThreads_nil] at hstep
    cases hstep
    exact .vanish hstage rfl
  · rw [numWorkers_handles] at hat hstage
    split at hstep
    · next w hw =>
      obtain ⟨k, hk, rfl⟩ : ∃ k, (List.range c.threads.length)[i]? = some k ∧ (q, k) = w := by
        simpa [handles] using hw
      obtain ⟨hlt, hki⟩ := List.getElem?_eq_some_iff.1 hk
      rw [List.length_range] at hlt
      rw [List.getElem_range] at hki
      subst hki
      rw [join, if_pos ((joinable_iff hc).2 (hat.next hlt)), hc] at hstep
      dsimp only at hstep
      rw [Option.map_map, Option.map_eq_some_iff] at hstep
      obtain ⟨c', hjoin, rfl⟩ := hstep
      have hlength := (Crew.pushed_of_join hjoin).2
      have hat' := hat.join hjoin
      have hr := Replaces.set hc c'
      refine .advance hstage rfl hr (.join hjoin) (by nofun) hat'.freed
        (x := .joining _ (i + 1)) rfl ?_
      rw [numWorkers_handles, ← hlength]
      rw [← hlength] at hat'
      exact .crew hr.after hat'
    · next hnone =>
      have hge : c.threads.length ≤ i := by simpa [handles] using hnone
      have hjoined := hat.joined hge
      rw [destroyThreads_eq (not_joinable_of_joined hc hjoined)] at hstep
      cases hstep
      exact .free hstage rfl (.modify hc Crew.free) hjoined

theorem effect_destroy (h : s.Inv) (hrun : s.terminated = false)
    (hstep : s.destroy o = some s') : Effect s (.destroy o) s' := by
  cases ho : s.objects o with
  | absent =>
    rw [destroy, ho] at hstep
    cases hstep
  | live p =>
    have hstage : (s.objects o).stage = some (p, 0, 0) := by rw [ho]; rfl
    have hholds := h.holds_of_running hrun hstage
    rw [destroy, ho] at hstep
    obtain rfl | ⟨q, c, hc, hat, rfl⟩ := hholds.cases
    · dsimp only at hstep
      rw [destroyThreads_nil] at hstep
      cases hstep
      exact .vanish hstage rfl
    · cases hstep
      exact .phase hstage rfl hholds
  | signalling p i => exact effect_signalling h hrun ho hstep
  | joining p i => exact effect_joining h hrun ho hstep

omit [DecidableEq Oid] in
theorem destroyThreads_start (s : World Oid τ) (n : Nat) :
    destroyThreads { s with crews := s.crews ++ [Crew.start n] } (handles s.crews.length n) =
      ⟨s.objects, s.crews ++ [Crew.start n], s.terminated || decide (n ≠ 0)⟩ := by
  have hcrew : (s.crews ++ [Crew.start n])[s.crews.length]? = some (Crew.start n) :=
    List.getElem?_concat_length
  have hany : (handles s.crews.length n).any
      (joinable { s with crews := s.crews ++ [Crew.start n] }) = decide (n ≠ 0) := by
    cases n with
    | zero => rfl
    | succ n =>
      refine List.any_eq_true.2 ⟨_, List.mem_map_of_mem (List.mem_range.2 n.succ_pos), ?_⟩
      exact (joinable_iff hcrew).2 (by simp [Crew.joins, Crew.start])
  rw [destroyThreads, hany]

theorem effect_construct (hrun : s.terminated = false) {n : Int} {startable : Nat}
    (ho : s.objects o = .absent) :
    Effect s (.construct o n startable) (s.after (s.threadPool o n startable)) := by
  have hdestroy := s.destroyThreads_start (min n.toNat startable)
  rw [handles] at hdestroy
  rw [threadPool]
  simp only [hdestroy]
  rw [hrun, Bool.false_or]
  split_ifs with hn hall hne
  · rw [hall, ← hrun]
    exact .construct ho
  · have hmin : min n.toNat startable = startable := by omega
    rw [hmin] at hne ⊢
    rw [hne]
    exact .startFails (of_decide_eq_true hne) (by omega)
  · exact .thrown _
  · exact .thrown _

theorem effect (h : s.Inv) {l : PoolOp Oid τ} (hstep : (lts Oid τ).step s l s') :
    Effect s l s' := by
  obtain ⟨hrun, hstep⟩ := hstep
  cases l with
  | construct o n startable =>
    rw [step] at hstep
    split at hstep
    · next ho =>
      cases hstep
      exact effect_construct hrun ho
    · cases hstep
  | dispatch caller o t => exact effect_dispatch h hrun hstep
  | moveConstruct dst src =>
    rw [step] at hstep
    split at hstep
    · next hdst hsrc =>
      cases hstep
      exact .moveConstruct hdst hsrc
    · cases hstep
  | moveAssign dst src =>
    rw [step] at hstep
    split at hstep
    · next hdst hsrc =>
      cases hstep
      exact .moveAssign hdst hsrc
    · cases hstep
  | destroy o => exact effect_destroy h hrun hstep
  | work q i =>
    rw [step] at hstep
    split at hstep
    · next c hc =>
      obtain ⟨c', hwork, rfl⟩ := Option.map_eq_some_iff.1 hstep
      exact .work (.set hc c') hwork
    · cases hstep

/-! ### The invariant is preserved -/

theorem Inv.construct (h : s.Inv) (hrun : s.terminated = false) (o : Oid) (n : Nat) :
    (World.mk (Function.update s.objects o
      (.live ⟨some s.crews.length, handles s.crews.length n⟩)) (s.crews ++ [Crew.start n])
      s.terminated).Inv := by
  refine h.object hrun ?_ ?_ ?_
  · rintro q o' hq - hq'
    obtain rfl : s.crews.length = q := Option.some.inj hq
    obtain ⟨p, m, j, hstage, htasks⟩ := exists_stage_of_queue hq'
    obtain rfl | ⟨q, c, hc, -, rfl⟩ := (h.holds_of_running hrun hstage).cases
    · cases htasks
    · cases htasks
      simp at hc
  · rintro p m j hstage -
    cases hstage
    have hlen : (Crew.start n : Crew τ).threads.length = n := List.length_replicate
    refine hlen ▸ .crew (c := Crew.start n) ?_ ⟨rfl, Nat.zero_le _, fun i k hk => ?_, rfl⟩
    · rw [hlen, List.getElem?_concat_length]
    · rw [Crew.joins, Crew.start, List.map_replicate] at hk
      rw [if_neg (Nat.not_lt_zero i)]
      exact List.eq_of_mem_replicate (List.mem_of_getElem? hk)
  · intro o' p m j _ _ hholds
    obtain rfl | ⟨q, c, hc, hat, rfl⟩ := hholds.cases
    · exact .nothing
    · refine .crew ?_ hat
      rw [List.getElem?_append_left (List.getElem?_eq_some_iff.1 hc).1]
      exact hc

omit [DecidableEq Oid] in
theorem Inv.startFails (h : s.Inv) (hrun : s.terminated = false) (c : Crew τ) :
    (World.mk s.objects (s.crews ++ [c]) true).Inv where
  holds o p m j hstage _ := by
    obtain rfl | ⟨q, d, hd, hat, rfl⟩ := (h.holds_of_running hrun hstage).cases
    · exact .nothing
    · refine .crew ?_ hat
      rw [List.getElem?_append_left (List.getElem?_eq_some_iff.1 hd).1]
      exact hd
  unique := h.unique

theorem Inv.moveFrom (h : s.Inv) (hrun : s.terminated = false) (src : Oid) :
    (s.setObject src (.live .movedFrom)).Inv := by
  refine h.object hrun ?_ ?_ fun _ _ _ _ _ _ hholds => hholds
  · rintro q o' hq
    cases hq
  · rintro p m j hstage -
    cases hstage
    exact .nothing

theorem Inv.moveTo (h : s.Inv) (hrun : s.terminated = false) {dst src : Oid} (hne : dst ≠ src)
    {p : ThreadPool} (hsrc : s.objects src = .live p) {crews : List (Crew τ)} {t : Bool}
    (hkeep : ∀ o' p m j, o' ≠ dst → (s.objects o').stage = some (p, m, j) →
      Holds s.crews p m j → Holds crews p m j) :
    (World.mk (Function.update (Function.update s.objects src (.live .movedFrom)) dst (.live p))
      crews t).Inv := by
  have hstage : (s.objects src).stage = some (p, 0, 0) := by rw [hsrc]; rfl
  refine (h.moveFrom hrun src).object hrun ?_ ?_ ?_
  · intro q o' hq _
    by_cases hsrc' : o' = src
    · rw [hsrc', objects_setObject_self]
      nofun
    · rw [objects_setObject_of_ne _ _ hsrc']
      intro hq'
      refine hsrc' (h.unique o' src q hq' ?_)
      rw [queue_of_stage hstage]
      exact hq
  · rintro p' m j hp' -
    cases hp'
    exact hkeep src p 0 0 (Ne.symm hne) hstage (h.holds_of_running hrun hstage)
  · intro o' p' m j hne' hstage' hholds
    by_cases hsrc' : o' = src
    · rw [hsrc', objects_setObject_self] at hstage'
      cases hstage'
      exact .nothing
    · rw [objects_setObject_of_ne _ _ hsrc'] at hstage'
      exact hkeep o' p' m j hne' hstage' hholds

theorem Inv.moveAssign (h : s.Inv) (hrun : s.terminated = false) {dst src : Oid}
    {d p : ThreadPool} (hdst : s.objects dst = .live d) (hsrc : s.objects src = .live p) :
    (s.moveAssign dst src d p).Inv := by
  have hstage : (s.objects dst).stage = some (d, 0, 0) := by rw [hdst]; rfl
  have hholds := h.holds_of_running hrun hstage
  rw [World.moveAssign]
  split
  · refine h.object hrun ?_ ?_ fun _ _ _ _ _ _ hholds => hholds
    · intro q o' hq hne hq'
      refine hne (h.unique o' dst q hq' ?_)
      rw [queue_of_stage hstage]
      exact hq
    · intro p' m j hp' hlive
      cases hp'
      obtain rfl | ⟨q, c, hc, hat, rfl⟩ := hholds.cases
      · exact .nothing
      · -- an overwritten thread was not joined, and has terminated the process
        have hnil := threads_eq_nil_of_not_joinable hc hat ?_
        · have hworkers : [] = handles q c.threads.length := by rw [hnil]; rfl
          rw [hworkers]
          exact .crew hc hat
        · exact (Bool.or_eq_false_iff.1 (Bool.eq_false_iff.2 fun ht => hlive ht trivial)).2
  · next hne =>
    apply h.moveTo hrun hne hsrc
    intro o' p' m j hne' hstage' hholds'
    obtain rfl | ⟨q, c, hc, hat, rfl⟩ := hholds.cases
    · exact hholds'
    · refine hholds'.of_ne (.modify hc Crew.free) fun hq => hne' ?_
      refine h.unique o' dst q ?_ ?_
      · rw [queue_of_stage hstage', hq]
      · rw [queue_of_stage hstage]

theorem Inv.effect (h : s.Inv) (hrun : s.terminated = false) {l : PoolOp Oid τ}
    (heffect : Effect s l s') : s'.Inv := by
  -- the object whose destructor takes a step owns what it owned before
  have howner : ∀ {o : Oid} {p : ThreadPool} {m j : Nat}, (s.objects o).stage = some (p, m, j) →
      ∀ q o', p.tasks = some q → o' ≠ o → (s.objects o').queue ≠ some q :=
    fun hstage q o' hq hne hq' => hne (h.unique o' _ q hq' (by rw [queue_of_stage hstage, hq]))
  cases heffect with
  | thrown => exact h
  | construct _ => exact h.construct hrun _ _
  | startFails _ _ => exact h.startFails hrun _
  | dispatch _ _ _ hr _ hsame => exact h.same hr hsame
  | work hr hwork => exact h.same hr (Crew.same_work hwork)
  | @moveConstruct dst src p hdst hsrc =>
    have hne : dst ≠ src := by
      rintro rfl
      rw [hdst] at hsrc
      cases hsrc
    exact h.moveTo hrun hne hsrc fun _ _ _ _ _ _ hholds => hholds
  | moveAssign hdst hsrc => exact h.moveAssign hrun hdst hsrc
  | vanish _ _ => exact h.object hrun nofun nofun fun _ _ _ _ _ _ hholds => hholds
  | phase hstage hx hholds =>
    refine h.object hrun ?_ ?_ fun _ _ _ _ _ _ hholds => hholds
    · intro q o' hq
      rw [queue_of_stage hx] at hq
      exact howner hstage q o' hq
    · rintro p' m' j' hx' -
      rw [hx] at hx'
      cases hx'
      exact hholds
  | advance hstage htasks hr _ _ _ hx hholds =>
    refine h.object hrun ?_ ?_ ?_
    · intro q o' hq
      rw [queue_of_stage hx] at hq
      exact howner hstage q o' hq
    · rintro p' m' j' hx' -
      rw [hx] at hx'
      cases hx'
      exact hholds
    · intro o' p' m' j' hne hstage' hholds'
      refine hholds'.of_ne hr fun hq => howner hstage _ o' htasks hne ?_
      rw [queue_of_stage hstage', hq]
  | free hstage htasks hr _ =>
    refine h.object hrun nofun nofun ?_
    intro o' p' m' j' hne hstage' hholds'
    refine hholds'.of_ne hr fun hq => howner hstage _ o' htasks hne ?_
    rw [queue_of_stage hstage', hq]

theorem inv (h : (lts Oid τ).Reachable s) : s.Inv := by
  refine h.invariant ?_ fun s l s' _ hinv hstep => hinv.effect hstep.1 (effect hinv hstep)
  rintro s rfl
  exact ⟨nofun, nofun⟩

/-! ### Every crew is a crew -/

theorem Effect.crew {l : PoolOp Oid τ} (heffect : Effect s l s') {q : Nat} {c' : Crew τ}
    (hc' : s'.crews[q]? = some c') : (∃ n, c' = Crew.start n) ∨
      ∃ c, s.crews[q]? = some c ∧ (c' = c ∨ ∃ a, Crew.Step c a c' ∧ ∀ t, a = .dispatch t →
        ∃ caller o p m j, l = .dispatch caller o t ∧ (s.objects o).stage = some (p, m, j) ∧
          c.At m j ∧ p.numWorkers = c.threads.length) := by
  have hreplaced : ∀ {crews : List (Crew τ)} {r : Nat} {d d' : Crew τ} {a : Crew.Action τ},
      Replaces s.crews crews r d d' → Crew.Step d a d' → (∀ t, a ≠ .dispatch t) →
      crews[q]? = some c' → ∃ c, s.crews[q]? = some c ∧ (c' = c ∨ ∃ a, Crew.Step c a c' ∧
        ∀ t, a = .dispatch t → ∃ caller o p m j, l = .dispatch caller o t ∧
          (s.objects o).stage = some (p, m, j) ∧ c.At m j ∧ p.numWorkers = c.threads.length) := by
    intro crews r d d' a hr hstep hne hc'
    obtain ⟨rfl, rfl⟩ | ⟨-, hc⟩ := hr.cases hc'
    · exact ⟨d, hr.before, .inr ⟨a, hstep, fun t ht => absurd ht (hne t)⟩⟩
    · exact ⟨c', hc, .inl rfl⟩
  cases heffect with
  | construct _ | startFails _ _ =>
    rw [List.getElem?_append] at hc'
    split at hc'
    · exact .inr ⟨c', hc', .inl rfl⟩
    · rw [List.getElem?_singleton] at hc'
      split at hc'
      · exact .inl ⟨_, (Option.some.inj hc').symm⟩
      · cases hc'
  | dispatch hstage hat hlen hr hstep _ =>
    obtain ⟨rfl, rfl⟩ | ⟨-, hc⟩ := hr.cases hc'
    · refine .inr ⟨_, hr.before, .inr ⟨_, hstep, fun t ht => ?_⟩⟩
      cases ht
      exact ⟨_, _, _, _, _, rfl, hstage, hat, hlen⟩
    · exact .inr ⟨c', hc, .inl rfl⟩
  | work hr hwork => exact .inr (hreplaced hr (.work hwork) nofun hc')
  | @moveAssign dst src d p _ _ =>
    rw [World.moveAssign] at hc'
    split at hc'
    · exact .inr ⟨c', hc', .inl rfl⟩
    · change (onTasks s.crews d.tasks Crew.free)[q]? = some c' at hc'
      cases htasks : d.tasks with
      | none =>
        rw [htasks] at hc'
        exact .inr ⟨c', hc', .inl rfl⟩
      | some r =>
        rw [htasks, onTasks, List.getElem?_modify] at hc'
        obtain ⟨c, hc, rfl⟩ := Option.map_eq_some_iff.1 hc'
        split
        · exact .inr ⟨c, hc, .inr ⟨.free, .free, nofun⟩⟩
        · exact .inr ⟨c, hc, .inl rfl⟩
  | advance _ _ hr hstep hne _ _ _ => exact .inr (hreplaced hr hstep hne hc')
  | free _ _ hr _ => exact .inr (hreplaced hr .free nofun hc')
  | _ => exact .inr ⟨c', hc', .inl rfl⟩

/-- The crews of a world in which dispatches are guarded are crews whose dispatches are. -/
theorem crew_reachable {ok : PoolObject → Prop} {okCrew : Crew τ → Prop}
    (hok : ∀ {x p m j} {c : Crew τ}, x.stage = some (p, m, j) → ok x → c.At m j →
      p.numWorkers = c.threads.length → okCrew c)
    (h : ((lts Oid τ).restrict (DispatchOnly ok)).Reachable s) :
    ∀ {q : Nat} {c : Crew τ}, s.crews[q]? = some c →
      ((Crew.lts τ).restrict (Crew.DispatchOnly okCrew)).Reachable c := by
  refine h.invariant (P := fun s => ∀ {q : Nat} {c : Crew τ}, s.crews[q]? = some c →
    ((Crew.lts τ).restrict (Crew.DispatchOnly okCrew)).Reachable c) ?_ ?_
  · rintro s rfl q c hc
    cases hc
  · rintro s l s' hreach hcrews ⟨hguard, hstep⟩ q c' hc'
    have heffect := effect (inv hreach.of_restrict) hstep
    obtain ⟨n, rfl⟩ | ⟨c, hc, rfl | ⟨a, hstep, hdispatch⟩⟩ := heffect.crew hc'
    · exact .init ⟨n, rfl⟩
    · exact hcrews hc
    · refine .step (hcrews hc) ⟨?_, hstep⟩
      cases a with
      | dispatch t =>
        obtain ⟨caller, o, p, m, j, rfl, hstage, hat, hlen⟩ := hdispatch t rfl
        exact hok hstage hguard hat hlen
      | _ => trivial

theorem reachable_of_crew (h : (lts Oid τ).Reachable s) {q : Nat} {c : Crew τ}
    (hc : s.crews[q]? = some c) : (Crew.lts τ).Reachable c := by
  have hall : ((lts Oid τ).restrict (DispatchOnly fun _ => True)).Reachable s :=
    h.restrict_of fun s l => by cases l <;> trivial
  have hcrew : ((Crew.lts τ).restrict (Crew.DispatchOnly fun _ => True)).Reachable c :=
    crew_reachable (fun _ _ _ _ => trivial) hall hc
  exact hcrew.of_restrict

end World

end Nanonet
