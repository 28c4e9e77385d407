import Mathlib.Logic.Relation

/-!
# Labelled transition systems

Reachable states, the invariant rule, and forward simulations along a function on states, where a
step of the concrete system may leave the abstract state as it is. Of a step function, whose runs
are lists of inputs: a predicate on a state and the next input holds along a run if it does at each
step.
-/

namespace Nanonet

variable {σ τ ι κ : Type*}

/-- A labelled transition system with initial states. -/
structure Lts (σ ι : Type*) where
  init : σ → Prop
  step : σ → ι → σ → Prop

namespace Lts

variable {A : Lts σ ι} {B : Lts τ κ}

inductive Reachable (A : Lts σ ι) : σ → Prop where
  | init {s : σ} : A.init s → Reachable A s
  | step {s s' : σ} {l : ι} : Reachable A s → A.step s l s' → Reachable A s'

/-- What holds initially and is preserved by every step from a reachable state, holds of every
reachable state. -/
theorem Reachable.invariant {P : σ → Prop} {s : σ} (h : A.Reachable s)
    (hinit : ∀ s, A.init s → P s)
    (hstep : ∀ s l s', A.Reachable s → P s → A.step s l s' → P s') : P s := by
  induction h with
  | init h => exact hinit _ h
  | step hreach h ih => exact hstep _ _ _ hreach ih h

theorem Reachable.foldlM {f : σ → ι → Option σ} (hf : ∀ s l s', f s l = some s' → A.step s l s')
    {ls : List ι} {s s' : σ} (hs : A.Reachable s) (h : ls.foldlM f s = some s') :
    A.Reachable s' := by
  induction ls generalizing s with
  | nil =>
    cases h
    exact hs
  | cons l ls ih =>
    rw [List.foldlM_cons, Option.bind_eq_bind, Option.bind_eq_some_iff] at h
    obtain ⟨t, ht, hrest⟩ := h
    exact ih (.step hs (hf s l t ht)) hrest

/-- The system without the steps that the guard refuses. -/
def restrict (A : Lts σ ι) (guard : σ → ι → Prop) : Lts σ ι where
  init := A.init
  step s l s' := guard s l ∧ A.step s l s'

theorem Reachable.of_restrict {guard : σ → ι → Prop} {s : σ}
    (h : (A.restrict guard).Reachable s) : A.Reachable s := by
  induction h with
  | init h => exact .init h
  | step _ h ih => exact .step ih h.2

theorem Reachable.restrict_mono {guard guard' : σ → ι → Prop} {s : σ}
    (h : (A.restrict guard).Reachable s) (himp : ∀ s l, guard s l → guard' s l) :
    (A.restrict guard').Reachable s := by
  induction h with
  | init h => exact .init h
  | step _ h ih => exact .step ih ⟨himp _ _ h.1, h.2⟩

theorem Reachable.restrict_of {guard : σ → ι → Prop} {s : σ} (h : A.Reachable s)
    (hall : ∀ s l, guard s l) : (A.restrict guard).Reachable s := by
  induction h with
  | init h => exact .init h
  | step _ h ih => exact .step ih ⟨hall _ _, h⟩

theorem foldlM_take_succ {f : σ → ι → Option σ} {ls : List ι} {n : Nat} {l : ι} {s : σ}
    (hn : ls[n]? = some l) :
    (ls.take (n + 1)).foldlM f s = ((ls.take n).foldlM f s).bind fun u => f u l := by
  rw [List.take_add_one, hn, Option.toList_some, List.foldlM_append]
  refine congrArg _ (funext fun u => ?_)
  rw [List.foldlM_cons]
  exact bind_pure _

/-- A label of a run that comes to its end takes the state in front of it to the one behind it. -/
theorem exists_foldlM_take_succ {f : σ → ι → Option σ} {ls : List ι} {n : Nat} {l : ι} {s t u : σ}
    (hrun : ls.foldlM f s = some t) (hn : ls[n]? = some l) (hu : (ls.take n).foldlM f s = some u) :
    ∃ u', f u l = some u' ∧ (ls.take (n + 1)).foldlM f s = some u' := by
  have htake : (ls.take (n + 1)).foldlM f s = f u l := by rw [foldlM_take_succ hn, hu]; rfl
  rw [← List.take_append_drop (n + 1) ls, List.foldlM_append, htake] at hrun
  obtain ⟨u', hstep, -⟩ := Option.bind_eq_some_iff.1 hrun
  exact ⟨u', hstep, htake.trans hstep⟩

/-- A run of a step function every step of which passes the guard. -/
theorem Reachable.restrict_foldlM {guard : σ → ι → Prop} {s s' : σ}
    (hs : (A.restrict guard).Reachable s) {f : σ → ι → Option σ}
    (hf : ∀ s l s', f s l = some s' → A.step s l s') {ls : List ι}
    (hguard : ∀ n u l, ls[n]? = some l → (ls.take n).foldlM f s = some u → guard u l)
    (n : Nat) (hrun : (ls.take n).foldlM f s = some s') :
    (A.restrict guard).Reachable s' := by
  induction n generalizing s' with
  | zero =>
    cases hrun
    exact hs
  | succ n ih =>
    cases hn : ls[n]? with
    | none =>
      rw [List.take_add_one, hn, Option.toList_none, List.append_nil] at hrun
      exact ih hrun
    | some l =>
      rw [foldlM_take_succ hn] at hrun
      obtain ⟨u, hu, hstep⟩ := Option.bind_eq_some_iff.1 hrun
      exact .step (ih hu) ⟨hguard n u l hn hu, hf u l s' hstep⟩

/-- Every step lowers a measure, so a run has no more steps than the measure it starts with. -/
theorem Reachable.foldlM_length {f : σ → ι → Option σ} {μ : σ → Nat → Prop}
    (hf : ∀ s l s', f s l = some s' → A.step s l s')
    (hlower : ∀ s l s' n, A.Reachable s → μ s n → f s l = some s' → ∃ n' < n, μ s' n')
    {ls : List ι} {s s' : σ} {n : Nat} (hs : A.Reachable s) (hn : μ s n)
    (h : ls.foldlM f s = some s') : ls.length ≤ n := by
  induction ls generalizing s n with
  | nil => exact Nat.zero_le n
  | cons l ls ih =>
    rw [List.foldlM_cons, Option.bind_eq_bind, Option.bind_eq_some_iff] at h
    obtain ⟨t, ht, hrest⟩ := h
    obtain ⟨n', hlt, hn'⟩ := hlower s l t n hs hn ht
    have hle := ih (.step hs (hf s l t ht)) hn' hrest
    rw [List.length_cons]
    omega

inductive Run (A : Lts σ ι) : List ι → σ → Prop where
  | nil {s : σ} : A.init s → Run A [] s
  | concat {s s' : σ} {ls : List ι} {l : ι} : Run A ls s → A.step s l s' → Run A (ls ++ [l]) s'

theorem Run.reachable {ls : List ι} {s : σ} (h : A.Run ls s) : A.Reachable s := by
  induction h with
  | nil h => exact .init h
  | concat _ h ih => exact .step ih h

theorem Reachable.exists_run {s : σ} (h : A.Reachable s) : ∃ ls, A.Run ls s := by
  induction h with
  | init h => exact ⟨[], .nil h⟩
  | step _ h ih =>
    obtain ⟨ls, hrun⟩ := ih
    exact ⟨_, .concat hrun h⟩

/-- Steps that lower a potential by one are no more than there was of it, and what other steps
added. -/
theorem Run.length_le {μ : σ → Nat} {adds : ι → Prop} [DecidablePred adds] {k n : Nat}
    (hinit : ∀ s, A.init s → μ s ≤ n)
    (hstep : ∀ s l s', A.Reachable s → A.step s l s' →
      μ s' + 1 ≤ μ s + if adds l then k else 0)
    {ls : List ι} {s : σ} (h : A.Run ls s) : μ s + ls.length ≤ n + k * ls.countP (adds ·) := by
  induction h with
  | nil h => exact hinit _ h
  | @concat s s' ls l hrun h ih =>
    have hle := hstep s l s' hrun.reachable h
    rw [List.length_append, List.length_singleton, List.countP_append, List.countP_singleton,
      Nat.mul_add]
    by_cases hadds : adds l
    · simp only [hadds, if_true, decide_true] at hle ⊢
      omega
    · simp only [hadds, if_false, decide_false, Bool.false_eq_true] at hle ⊢
      omega

/-- `f` maps every state reached by `A` to one of `B`, a step of `A` to a step of `B` or to none. -/
structure Simulates (A : Lts σ ι) (B : Lts τ κ) (f : σ → τ) : Prop where
  init : ∀ s, A.init s → B.init (f s)
  step : ∀ s l s', A.Reachable s → B.Reachable (f s) → A.step s l s' →
    f s' = f s ∨ ∃ k, B.step (f s) k (f s')

theorem Simulates.reachable {f : σ → τ} (h : Simulates A B f) {s : σ} (hs : A.Reachable s) :
    B.Reachable (f s) := by
  induction hs with
  | init hs => exact .init (h.init _ hs)
  | @step s s' l hs hstep ih =>
    obtain heq | ⟨k, hk⟩ := h.step s l s' hs ih hstep
    · rw [heq]
      exact ih
    · exact .step ih hk

theorem Simulates.invariant {f : σ → τ} (h : Simulates A B f) {P : τ → Prop}
    (hP : ∀ t, B.Reachable t → P t) {s : σ} (hs : A.Reachable s) : P (f s) :=
  hP _ (h.reachable hs)

end Lts

/-! ### Along a run of a step function -/

section along

variable {f : σ → ι → σ} {P Q : σ → ι → Prop} {I : σ → Prop} {s : σ}

/-- `P` holds at each step of a run from `s`. -/
def Along (f : σ → ι → σ) (P : σ → ι → Prop) : σ → List ι → Prop
  | _, [] => True
  | s, i :: is => P s i ∧ Along f P (f s i) is

/-- Predicates that agree where an invariant holds, which one of them keeps. -/
theorem along_iff {is : List ι} (hiff : ∀ s i, I s → (P s i ↔ Q s i))
    (hstep : ∀ s i, I s → Q s i → I (f s i)) (hs : I s) : Along f P s is ↔ Along f Q s is := by
  induction is generalizing s with
  | nil => exact Iff.rfl
  | cons i is ih =>
    rw [Along, Along, hiff s i hs]
    exact and_congr_right fun hq => ih (hstep s i hs hq)

end along

end Nanonet
