import Mathlib.Data.List.Nodup
import Mathlib.Algebra.Order.Ring.Int
import Nanonet.Lib.Swaps
import Nanonet.Util.AutoResource

/-!
# Who owns a handle

A handle that was handed to an object is held, disposed or lost, and it was initialized or was not.
No operation takes a handle out of this account, so what is lost stays lost. Two operations lose
something: move assignment overwrites the handle of its target, and `reset` takes a new handle
without initializing it. A run that does neither owns every handle exactly once, any other run does
not.
-/

namespace Nanonet

variable {R σ : Type*} [DecidableEq R] {T : ResourceTraits R σ} {w w' : ResourceWorld R σ} {h : R}

/-! ### The specification -/

/-- Each valid handle was initialized once, is held by at most one object, and was disposed, once,
exactly if none holds it. -/
def ResourceWorld.OwnedOnce (T : ResourceTraits R σ) (w : ResourceWorld R σ) : Prop :=
  ∀ h ∈ w.handed, T.valid h = true →
    w.calls.initialized.count h = 1 ∧ w.holders h ≤ 1 ∧
    w.calls.disposed.count h = if w.holders h = 0 then 1 else 0

/-- No valid handle was handed over twice. -/
def ResourceWorld.Fresh (T : ResourceTraits R σ) (w : ResourceWorld R σ) : Prop :=
  (w.handed.filter T.valid).Nodup

instance (w : ResourceWorld R σ) : Decidable (w.Fresh T) :=
  inferInstanceAs (Decidable (List.Nodup _))

/-- No move assignment onto another object that holds a valid handle, and no `reset` to a valid
handle. -/
def ResourceOp.Careful (T : ResourceTraits R σ) (w : ResourceWorld R σ) : ResourceOp R → Prop
  | .moveAssign lhs rhs => lhs = rhs ∨ ∀ a, w.object lhs = some a → a.valid T = false
  | .reset _ hh => T.valid hh = false
  | _ => True

/-- Every operation of a run is careful in the state in which it happens. -/
def ResourceOp.CarefulRun (T : ResourceTraits R σ) : ResourceWorld R σ → List (ResourceOp R) → Prop
  | _, [] => True
  | w, op :: ops => op.Careful T w ∧ ∀ w', op.step T w = some w' → CarefulRun T w' ops

/-! ### The account of a handle -/

namespace ResourceWorld

omit [DecidableEq R] in
theorem object_eq_some {i : Nat} {a : AutoResource R} :
    w.object i = some a ↔ w.objects[i]? = some (some a) := by
  rw [object, Option.join_eq_some_iff]

/-- How often `h` was handed over without being held or disposed. -/
def lost (w : ResourceWorld R σ) (h : R) : Int :=
  w.handed.count h - w.holders h - w.calls.disposed.count h

/-- How often `h` was handed over without being initialized. -/
def uninitialized (w : ResourceWorld R σ) (h : R) : Int :=
  w.handed.count h - w.calls.initialized.count h

end ResourceWorld

theorem count_set {α : Type*} [BEq α] [LawfulBEq α] [DecidableEq α] {l : List α} {i : Nat} {x : α}
    (hx : l[i]? = some x) (a b : α) : ((l.set i a).count b : Int) =
      l.count b - (if x = b then 1 else 0) + (if a = b then 1 else 0) := by
  have hcount := countP_set_add (· == b) hx a
  simp only [toNat_eq_ite, beq_iff_eq] at hcount
  rw [List.count_eq_countP, List.count_eq_countP]
  split_ifs at hcount ⊢ <;> omega

theorem count_concat {α : Type*} [BEq α] [LawfulBEq α] [DecidableEq α] (l : List α) (a b : α) :
    ((l ++ [a]).count b : Int) = l.count b + (if a = b then 1 else 0) := by
  rw [List.count_append, List.count_singleton]
  simp only [beq_iff_eq]
  split <;> simp

theorem count_disposed (hvalid : T.valid h = true) (a : AutoResource R) (c : Calls R σ) :
    ((a.dispose T c).disposed.count h : Int) =
      c.disposed.count h + (if a.h = h then 1 else 0) := by
  rw [AutoResource.dispose]
  split
  · exact count_concat _ _ _
  · next hnot =>
    have hne : a.h ≠ h := fun heq => hnot (heq ▸ hvalid)
    rw [if_neg hne, add_zero]

/-! ### One operation -/

/-- The handle that an operation overwrites. -/
def ResourceOp.overwritten (w : ResourceWorld R σ) : ResourceOp R → Option R
  | .moveAssign lhs rhs => if lhs = rhs then none else (w.object lhs).map (·.h)
  | _ => none

/-- The handle that an operation takes in without initializing it. -/
def ResourceOp.takenAsIs : ResourceOp R → Option R
  | .reset _ hh => some hh
  | _ => none

open ResourceOp

theorem count_set_handle {l : List (Option (AutoResource R))} {i : Nat} {x : R}
    (hx : l[i]? = some (some ⟨x⟩)) (y h : R) :
    ((l.set i (some ⟨y⟩)).count (some ⟨h⟩) : Int) =
      l.count (some ⟨h⟩) - (if x = h then 1 else 0) + (if y = h then 1 else 0) := by
  rw [count_set hx]
  simp only [Option.some.injEq, AutoResource.mk.injEq]

omit [DecidableEq R] in
theorem ne_invalid (hvalid : T.valid h = true) : T.invalid ≠ h := by
  rintro rfl
  rw [T.valid_invalid] at hvalid
  cases hvalid

theorem lost_moveAssign {lhs rhs : Nat} (hvalid : T.valid h = true)
    (hstep : (moveAssign lhs rhs).step T w = some w') :
    w'.lost h = w.lost h + (if (moveAssign lhs rhs).overwritten w = some h then 1 else 0) := by
  simp only [step, Option.bind_eq_some_iff, Option.map_eq_some_iff] at hstep
  obtain ⟨⟨b⟩, hlhs, ⟨a⟩, hrhs, rfl⟩ := hstep
  have hset := count_set_handle (ResourceWorld.object_eq_some.1 hrhs) T.invalid h
  rw [if_neg (ne_invalid hvalid)] at hset
  simp only [ResourceWorld.lost, ResourceWorld.holders, AutoResource.release, overwritten,
    hlhs, Option.map_some]
  by_cases hself : lhs = rhs
  · subst hself
    have hback := count_set_handle (ResourceWorld.object_eq_some.1 hrhs) a h
    rw [List.set_set, if_pos rfl, if_neg (by simp)]
    omega
  · have hlhs' : (w.objects.set rhs (some ⟨T.invalid⟩))[lhs]? = some (some ⟨b⟩) := by
      rw [List.getElem?_set_ne (Ne.symm hself)]
      exact ResourceWorld.object_eq_some.1 hlhs
    have hset' := count_set_handle hlhs' a h
    rw [if_neg hself]
    simp only [Option.some.injEq]
    omega

theorem lost_step {op : ResourceOp R} (hvalid : T.valid h = true) (hstep : op.step T w = some w') :
    w'.lost h = w.lost h + (if op.overwritten w = some h then 1 else 0) := by
  have hinv := ne_invalid hvalid
  cases op with
  | defaultConstruct =>
    cases hstep
    have hnew := count_concat w.objects (some ⟨T.invalid⟩) (some ⟨h⟩)
    simp only [Option.some.injEq, AutoResource.mk.injEq, hinv, if_false] at hnew
    simp only [ResourceWorld.lost, ResourceWorld.holders, AutoResource.default, overwritten,
      reduceCtorEq, if_false]
    omega
  | construct h_in =>
    cases hstep
    have hnew := count_concat w.objects (some ⟨h_in⟩) (some ⟨h⟩)
    have hhanded := count_concat w.handed h_in h
    simp only [Option.some.injEq, AutoResource.mk.injEq] at hnew
    simp only [ResourceWorld.lost, ResourceWorld.holders, AutoResource.construct,
      ResourceTraits.callInit, overwritten, reduceCtorEq, if_false]
    omega
  | moveConstruct other =>
    simp only [step, Option.map_eq_some_iff] at hstep
    obtain ⟨⟨a⟩, hother, rfl⟩ := hstep
    have hset := count_set_handle (ResourceWorld.object_eq_some.1 hother) T.invalid h
    have hnew := count_concat (w.objects.set other (some ⟨T.invalid⟩)) (some ⟨a⟩) (some ⟨h⟩)
    simp only [Option.some.injEq, AutoResource.mk.injEq] at hnew
    rw [if_neg hinv] at hset
    simp only [ResourceWorld.lost, ResourceWorld.holders, AutoResource.moveConstruct,
      AutoResource.release, overwritten, reduceCtorEq, if_false]
    omega
  | moveAssign lhs rhs => exact lost_moveAssign hvalid hstep
  | reset i hh =>
    simp only [step, Option.map_eq_some_iff] at hstep
    obtain ⟨⟨a⟩, hobject, rfl⟩ := hstep
    have hset := count_set_handle (ResourceWorld.object_eq_some.1 hobject) hh h
    have hdisposed := count_disposed hvalid ⟨a⟩ w.calls
    dsimp only at hdisposed
    have hhanded := count_concat w.handed hh h
    simp only [ResourceWorld.lost, ResourceWorld.holders, AutoResource.reset, overwritten,
      reduceCtorEq, if_false]
    omega
  | destroy i =>
    simp only [step, Option.map_eq_some_iff] at hstep
    obtain ⟨⟨a⟩, hobject, rfl⟩ := hstep
    have hset := count_set (ResourceWorld.object_eq_some.1 hobject) none (some ⟨h⟩)
    have hdisposed := count_disposed hvalid ⟨a⟩ w.calls
    dsimp only at hdisposed
    simp only [Option.some.injEq, AutoResource.mk.injEq, reduceCtorEq, if_false] at hset
    simp only [ResourceWorld.lost, ResourceWorld.holders, AutoResource.destroy, overwritten,
      reduceCtorEq, if_false]
    omega

omit [DecidableEq R] in
theorem initialized_dispose (a : AutoResource R) (c : Calls R σ) :
    (a.dispose T c).initialized = c.initialized := by
  rw [AutoResource.dispose]
  split <;> rfl

theorem uninitialized_step {op : ResourceOp R} (hstep : op.step T w = some w') :
    w'.uninitialized h = w.uninitialized h + (if op.takenAsIs = some h then 1 else 0) := by
  cases op with
  | defaultConstruct =>
    cases hstep
    simp [ResourceWorld.uninitialized, takenAsIs]
  | construct h_in =>
    cases hstep
    simp only [ResourceWorld.uninitialized, AutoResource.construct, ResourceTraits.callInit,
      takenAsIs, reduceCtorEq, if_false, count_concat]
    omega
  | moveConstruct other =>
    simp only [step, Option.map_eq_some_iff] at hstep
    obtain ⟨a, -, rfl⟩ := hstep
    simp [ResourceWorld.uninitialized, takenAsIs]
  | moveAssign lhs rhs =>
    simp only [step, Option.bind_eq_some_iff, Option.map_eq_some_iff] at hstep
    obtain ⟨b, -, a, -, rfl⟩ := hstep
    simp [ResourceWorld.uninitialized, takenAsIs]
  | reset i hh =>
    simp only [step, Option.map_eq_some_iff] at hstep
    obtain ⟨a, -, rfl⟩ := hstep
    simp only [ResourceWorld.uninitialized, AutoResource.reset, takenAsIs, Option.some.injEq,
      initialized_dispose, count_concat]
    omega
  | destroy i =>
    simp only [step, Option.map_eq_some_iff] at hstep
    obtain ⟨a, -, rfl⟩ := hstep
    simp [ResourceWorld.uninitialized, takenAsIs, AutoResource.destroy, initialized_dispose]

/-! ### Runs -/

/-- Nothing valid is lost or uninitialized. -/
def ResourceWorld.Balanced (T : ResourceTraits R σ) (w : ResourceWorld R σ) : Prop :=
  ∀ h, T.valid h = true → w.lost h = 0 ∧ w.uninitialized h = 0

/-- Nothing is held, disposed or initialized more often than it was handed over. -/
def ResourceWorld.Covered (T : ResourceTraits R σ) (w : ResourceWorld R σ) : Prop :=
  ∀ h, T.valid h = true → 0 ≤ w.lost h ∧ 0 ≤ w.uninitialized h

omit [DecidableEq R] in
theorem careful_iff {op : ResourceOp R} :
    op.Careful T w ↔
      ∀ h, T.valid h = true → op.overwritten w ≠ some h ∧ op.takenAsIs ≠ some h := by
  cases op with
  | moveAssign lhs rhs =>
    by_cases hself : lhs = rhs
    · simp [Careful, overwritten, takenAsIs, hself]
    · simp only [Careful, hself, false_or, overwritten, if_false, takenAsIs, ne_eq, reduceCtorEq,
        not_false_eq_true, and_true, Option.map_eq_some_iff, not_exists, not_and]
      constructor
      · rintro h b hb a ha rfl
        rw [← AutoResource.valid, h a ha] at hb
        cases hb
      · intro h a ha
        by_contra hvalid
        exact h a.h (by simpa [AutoResource.valid] using hvalid) a ha rfl
  | reset i hh =>
    simp only [Careful, overwritten, takenAsIs, ne_eq, reduceCtorEq, not_false_eq_true, true_and,
      Option.some.injEq]
    constructor
    · rintro h b hb rfl
      rw [h] at hb
      cases hb
    · intro h
      by_contra hvalid
      exact h hh (by simpa using hvalid) rfl
  | defaultConstruct => simp [Careful, overwritten, takenAsIs]
  | construct h_in => simp [Careful, overwritten, takenAsIs]
  | moveConstruct other => simp [Careful, overwritten, takenAsIs]
  | destroy i => simp [Careful, overwritten, takenAsIs]

theorem covered_step {op : ResourceOp R} (hw : w.Covered T) (hstep : op.step T w = some w') :
    w'.Covered T := by
  intro h hvalid
  obtain ⟨hlost, huninit⟩ := hw h hvalid
  rw [lost_step hvalid hstep, uninitialized_step hstep]
  constructor <;> split <;> omega

theorem balanced_step {op : ResourceOp R} (hw : w.Covered T) (hstep : op.step T w = some w') :
    w'.Balanced T ↔ w.Balanced T ∧ op.Careful T w := by
  rw [careful_iff, ResourceWorld.Balanced, ResourceWorld.Balanced]
  constructor
  · intro hbal
    have hall : ∀ h, T.valid h = true → (w.lost h = 0 ∧ w.uninitialized h = 0) ∧
        op.overwritten w ≠ some h ∧ op.takenAsIs ≠ some h := by
      intro h hvalid
      obtain ⟨hlost, huninit⟩ := hw h hvalid
      have hsum := hbal h hvalid
      rw [lost_step hvalid hstep, uninitialized_step hstep] at hsum
      refine ⟨⟨?_, ?_⟩, ?_, ?_⟩
      · split at hsum <;> omega
      · split at hsum <;> split at hsum <;> omega
      · intro heq
        rw [if_pos heq] at hsum
        omega
      · intro heq
        rw [if_pos heq] at hsum
        omega
    exact ⟨fun h hvalid => (hall h hvalid).1, fun h hvalid => (hall h hvalid).2⟩
  · rintro ⟨hbal, hcareful⟩ h hvalid
    obtain ⟨hover, htaken⟩ := hcareful h hvalid
    rw [lost_step hvalid hstep, uninitialized_step hstep, if_neg hover, if_neg htaken, add_zero,
      add_zero]
    exact hbal h hvalid

omit [DecidableEq R] in
theorem run_cons {op : ResourceOp R} {ops : List (ResourceOp R)} :
    run T w (op :: ops) = some w' ↔ ∃ v, op.step T w = some v ∧ run T v ops = some w' := by
  rw [run, List.foldlM_cons, Option.bind_eq_bind, Option.bind_eq_some_iff]
  rfl

theorem covered_run {ops : List (ResourceOp R)} (hw : w.Covered T) (hrun : run T w ops = some w') :
    w'.Covered T := by
  induction ops generalizing w with
  | nil =>
    cases hrun
    exact hw
  | cons op ops ih =>
    obtain ⟨v, hstep, hrest⟩ := run_cons.1 hrun
    exact ih (covered_step hw hstep) hrest

theorem balanced_run {ops : List (ResourceOp R)} (hw : w.Covered T) (hrun : run T w ops = some w') :
    w'.Balanced T ↔ w.Balanced T ∧ CarefulRun T w ops := by
  induction ops generalizing w with
  | nil =>
    cases hrun
    simp [CarefulRun]
  | cons op ops ih =>
    obtain ⟨v, hstep, hrest⟩ := run_cons.1 hrun
    rw [ih (covered_step hw hstep) hrest, balanced_step hw hstep, CarefulRun, and_assoc]
    simp only [hstep, Option.some.injEq, forall_eq']

theorem uninitialized_start (s : σ) (h : R) :
    (ResourceWorld.start s : ResourceWorld R σ).uninitialized h = 0 := rfl

theorem covered_start (s : σ) : (ResourceWorld.start s).Covered T :=
  fun _ _ => ⟨le_rfl, le_rfl⟩

theorem balanced_start (s : σ) : (ResourceWorld.start s).Balanced T := fun _ _ => ⟨rfl, rfl⟩

theorem count_handed (hfresh : w.Fresh T) (hvalid : T.valid h = true) : w.handed.count h ≤ 1 := by
  have hle := List.nodup_iff_count_le_one.1 hfresh h
  rwa [List.count_filter hvalid] at hle

theorem ownedOnce_iff_balanced (hw : w.Covered T) (hfresh : w.Fresh T) :
    w.OwnedOnce T ↔ w.Balanced T := by
  constructor
  · intro howned h hvalid
    obtain ⟨hlost, huninit⟩ := hw h hvalid
    have hle := count_handed hfresh hvalid
    unfold ResourceWorld.lost ResourceWorld.uninitialized at *
    by_cases hmem : h ∈ w.handed
    · obtain ⟨hinit, hheld, hdisposed⟩ := howned h hmem hvalid
      have hpos := List.count_pos_iff.2 hmem
      split at hdisposed <;> omega
    · have hzero := List.count_eq_zero.2 hmem
      omega
  · intro hbal h hmem hvalid
    obtain ⟨hlost, huninit⟩ := hbal h hvalid
    have hle := count_handed hfresh hvalid
    have hpos := List.count_pos_iff.2 hmem
    unfold ResourceWorld.lost at hlost
    unfold ResourceWorld.uninitialized at huninit
    refine ⟨by omega, by omega, ?_⟩
    split <;> omega

/-! ### Sentries -/

/-- How often `h` was initialized and not disposed. -/
def Calls.outstanding (c : Calls R σ) (h : R) : Int := c.initialized.count h - c.disposed.count h

theorem outstanding_callInit (c : Calls R σ) (h k : R) :
    (T.callInit h c).outstanding k = c.outstanding k + (if h = k then 1 else 0) := by
  have hcount := count_concat c.initialized h k
  simp only [Calls.outstanding, ResourceTraits.callInit]
  omega

theorem outstanding_callDispose (c : Calls R σ) (h k : R) :
    (T.callDispose h c).outstanding k = c.outstanding k - (if h = k then 1 else 0) := by
  have hcount := count_concat c.disposed h k
  simp only [Calls.outstanding, ResourceTraits.callDispose]
  omega

section Sentry

variable {Counter : Type*} [DecidableEq Counter]
  {v v' : ResourceWorld (Option Counter) (Counter → Int)}

/-- A counter without what the calls did to it. -/
def Calls.untouched (c : Calls (Option Counter) (Counter → Int)) (k : Counter) : Int :=
  c.state k - c.outstanding (some k)

theorem untouched_callInit (c : Calls (Option Counter) (Counter → Int)) (pi : Option Counter)
    (k : Counter) :
    ((incrementSentryTraits Counter).callInit pi c).untouched k = c.untouched k := by
  rw [Calls.untouched, outstanding_callInit, Calls.untouched]
  simp only [ResourceTraits.callInit, incrementSentryTraits]
  split <;> omega

theorem untouched_dispose (c : Calls (Option Counter) (Counter → Int))
    (a : AutoResource (Option Counter)) (k : Counter) :
    (a.dispose (incrementSentryTraits Counter) c).untouched k = c.untouched k := by
  rw [AutoResource.dispose]
  split
  · rw [Calls.untouched, outstanding_callDispose, Calls.untouched]
    simp only [ResourceTraits.callDispose, incrementSentryTraits]
    split <;> omega
  · rfl

theorem untouched_step {op : ResourceOp (Option Counter)} {k : Counter}
    (hstep : op.step (incrementSentryTraits Counter) v = some v') :
    v'.calls.untouched k = v.calls.untouched k := by
  cases op with
  | defaultConstruct =>
    cases hstep
    rfl
  | construct h_in =>
    cases hstep
    exact untouched_callInit _ _ _
  | moveConstruct other =>
    simp only [step, Option.map_eq_some_iff] at hstep
    obtain ⟨a, -, rfl⟩ := hstep
    rfl
  | moveAssign lhs rhs =>
    simp only [step, Option.bind_eq_some_iff, Option.map_eq_some_iff] at hstep
    obtain ⟨b, -, a, -, rfl⟩ := hstep
    rfl
  | reset i hh =>
    simp only [step, Option.map_eq_some_iff] at hstep
    obtain ⟨a, -, rfl⟩ := hstep
    exact untouched_dispose _ _ _
  | destroy i =>
    simp only [step, Option.map_eq_some_iff] at hstep
    obtain ⟨a, -, rfl⟩ := hstep
    exact untouched_dispose _ _ _

theorem uninitialized_sentryOp {op : ResourceOp (Option Counter)} {k : Counter} (hop : SentryOp op)
    (hstep : op.step (incrementSentryTraits Counter) v = some v') :
    v'.uninitialized (some k) = v.uninitialized (some k) := by
  have hnone : op.takenAsIs ≠ some (some k) := by
    cases op with
    | reset i hh => exact hop.elim
    | _ => simp [takenAsIs]
  rw [uninitialized_step hstep, if_neg hnone, add_zero]

theorem sentry_run {ops : List (ResourceOp (Option Counter))} {k : Counter}
    (hops : ∀ op ∈ ops, SentryOp op)
    (hrun : run (incrementSentryTraits Counter) v ops = some v') :
    v'.calls.untouched k = v.calls.untouched k ∧
      v'.uninitialized (some k) = v.uninitialized (some k) := by
  induction ops generalizing v with
  | nil =>
    cases hrun
    exact ⟨rfl, rfl⟩
  | cons op ops ih =>
    obtain ⟨u, hstep, hrest⟩ := run_cons.1 hrun
    obtain ⟨huntouched, huninit⟩ := ih (fun op' hop' => hops op' (List.mem_cons_of_mem _ hop')) hrest
    rw [huntouched, huninit, untouched_step hstep,
      uninitialized_sentryOp (hops op List.mem_cons_self) hstep]
    exact ⟨rfl, rfl⟩

theorem counter_eq {ops : List (ResourceOp (Option Counter))} {count : Counter → Int} {k : Counter}
    (hops : ∀ op ∈ ops, SentryOp op)
    (hrun : run (incrementSentryTraits Counter) (.start count) ops = some v) :
    v.calls.state k = count k + v.holders (some k) + v.lost (some k) := by
  obtain ⟨huntouched, huninit⟩ := sentry_run (k := k) hops hrun
  have hstart : (ResourceWorld.start count : ResourceWorld (Option Counter) _).calls.untouched k =
      count k := by
    simp [ResourceWorld.start, Calls.untouched, Calls.outstanding]
  rw [hstart] at huntouched
  rw [uninitialized_start] at huninit
  unfold ResourceWorld.uninitialized at huninit
  unfold Calls.untouched Calls.outstanding at huntouched
  unfold ResourceWorld.lost
  omega

theorem counter_iff_balanced {ops : List (ResourceOp (Option Counter))} {count : Counter → Int}
    (hops : ∀ op ∈ ops, SentryOp op)
    (hrun : run (incrementSentryTraits Counter) (.start count) ops = some v) :
    (∀ k, v.calls.state k = count k + v.holders (some k)) ↔
      v.Balanced (incrementSentryTraits Counter) := by
  constructor
  · intro hcount h hvalid
    obtain ⟨k, rfl⟩ := Option.isSome_iff_exists.1 hvalid
    have hk := hcount k
    rw [counter_eq hops hrun] at hk
    refine ⟨by omega, ?_⟩
    rw [(sentry_run hops hrun).2, uninitialized_start]
  · intro hbal k
    rw [counter_eq hops hrun, (hbal (some k) rfl).1, add_zero]

end Sentry

/-- Every handle is owned once exactly if the run is careful, and then every counter of a sentry is
what it was plus the number of its sentries; in any other run it is not. -/
theorem ownedOnce_iff_careful (T : ResourceTraits R σ) (Counter : Type*) [DecidableEq Counter] :
    (∀ (s : σ) (ops : List (ResourceOp R)) (w : ResourceWorld R σ),
      run T (.start s) ops = some w → w.Fresh T →
        (w.OwnedOnce T ↔ CarefulRun T (.start s) ops)) ∧
    (∀ (count : Counter → Int) (ops : List (ResourceOp (Option Counter)))
      (w : ResourceWorld (Option Counter) (Counter → Int)),
      run (incrementSentryTraits Counter) (.start count) ops = some w →
        (∀ op ∈ ops, SentryOp op) →
        ((∀ k, w.calls.state k = count k + w.holders (some k)) ↔
          CarefulRun (incrementSentryTraits Counter) (.start count) ops)) := by
  constructor
  · intro s ops w hrun hfresh
    rw [ownedOnce_iff_balanced (covered_run (covered_start s) hrun) hfresh,
      balanced_run (covered_start s) hrun]
    exact and_iff_right (balanced_start s)
  · intro count ops w hrun hops
    rw [counter_iff_balanced hops hrun, balanced_run (covered_start count) hrun]
    exact and_iff_right (balanced_start count)

/-- A descriptor that is moved into a second object is owned once, and a sentry that is moved counts
once. -/
theorem moved_owned_once :
    (∃ w, run fdTraits (.start fun _ => true)
        [.construct 3, .moveConstruct 0, .destroy 0, .destroy 1] = some w ∧
      w.OwnedOnce fdTraits) ∧
    ∃ w, run (incrementSentryTraits Unit) (.start fun _ => 0)
        [.construct (some ()), .moveConstruct 0, .destroy 0] = some w ∧
      ∀ k, w.calls.state k = 0 + w.holders (some k) := by
  constructor
  · have hrun : run fdTraits (.start fun _ => true)
        [.construct 3, .moveConstruct 0, .destroy 0, .destroy 1] =
          some ⟨[none, none], ⟨fun k => if k = 3 then false else true, [3], [3]⟩, [3]⟩ := rfl
    refine ⟨_, hrun, ((ownedOnce_iff_careful fdTraits Unit).1 _ _ _ hrun (by decide)).2 ?_⟩
    simp [CarefulRun, Careful]
  · have hrun : run (incrementSentryTraits Unit) (.start fun _ => 0)
        [.construct (some ()), .moveConstruct 0, .destroy 0] =
          some ⟨[none, some ⟨some ()⟩], ⟨fun _ => 1, [some ()], []⟩, [some ()]⟩ := rfl
    refine ⟨_, hrun, ((ownedOnce_iff_careful fdTraits Unit).2 _ _ _ hrun ?_).2 ?_⟩
    · simp [SentryOp]
    · simp [CarefulRun, Careful]

/-- Move assignment onto an object that holds a descriptor drops the descriptor undisposed, and a
counter that loses its sentry so stays incremented. -/
theorem overwritten_not_owned_once :
    (∃ w, run fdTraits (.start fun _ => true)
        [.construct 3, .construct 4, .moveAssign 0 1, .destroy 1, .destroy 0] = some w ∧
      w.Fresh fdTraits ∧ w.holders 3 = 0 ∧ w.calls.disposed = [4] ∧ ¬ w.OwnedOnce fdTraits) ∧
    ∃ w, run (incrementSentryTraits Unit) (.start fun _ => 0)
        [.construct (some ()), .construct (some ()), .moveAssign 0 1, .destroy 1, .destroy 0] =
          some w ∧
      w.holders (some ()) = 0 ∧ w.calls.state () = 1 := by
  constructor
  · refine ⟨⟨[none, none], ⟨fun k => if k = 4 then false else true, [3, 4], [4]⟩, [3, 4]⟩, rfl,
      by decide, by decide, rfl, ?_⟩
    intro howned
    obtain ⟨-, -, hdisposed⟩ := howned 3 (by decide) (by decide)
    revert hdisposed
    decide
  · exact ⟨⟨[none, none], ⟨fun _ => 1, [some (), some ()], [some ()]⟩, [some (), some ()]⟩, rfl,
      by decide, rfl⟩

end Nanonet
