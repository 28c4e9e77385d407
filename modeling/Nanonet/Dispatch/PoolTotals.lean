import Mathlib.Tactic.Abel
import Nanonet.Dispatch.PoolsInv

/-!
# What a program with pools adds up to

The frames and the crews of a state are weighed, and the weights added up. When every move exchanges
weights that are related by `R`, so does every step of a program (`Pools.Weighing.step`). With
equality the total is conserved: every task of the program is still to be called, is about to be
called by a job in a queue, or was dispatched (`Pools.Conserved`).
-/

namespace Nanonet

variable {τ M : Type*} [AddCommMonoid M]

namespace Pools

variable {P : Program τ} {wf : Frame τ → M} {wc wr : Crew (Job τ) → M} {R : M → M → Prop}
  {s s' : Pools τ} {k : Caller} {t : M}

/-- The weight of the frames, of the crews of live pools and of those of destroyed ones. -/
def Total (wf : Frame τ → M) (wc wr : Crew (Job τ) → M) (s : Pools τ) (t : M) : Prop :=
  ∃ a b, HasTotal wf s.frames a ∧ HasTotal wc s.crews b ∧ t = a + b + (s.retired.map wr).sum

theorem Total.split (h : Total wf wc wr s t) (k : Caller) (p : Nat) :
    ∃ rest, t = wf (s.frames k) + wc (s.crews p) + rest ∧ ∀ f c s',
      s'.frames = Function.update s.frames k f → s'.crews = Function.update s.crews p c →
      ∀ w, (s'.retired.map wr).sum = w + (s.retired.map wr).sum →
        Total wf wc wr s' (wf f + (wc c + w) + rest) := by
  obtain ⟨a, b, ha, hb, rfl⟩ := h
  obtain ⟨others, rfl, hset⟩ := ha.split k
  obtain ⟨crews, rfl, hcrews⟩ := hb.split p
  refine ⟨others + crews + (s.retired.map wr).sum, ?_, fun f c s' hf hc w hw => ?_⟩
  · abel
  · refine ⟨wf f + others, wc c + crews, ?_, ?_, ?_⟩
    · rw [hf]
      exact hset f
    · rw [hc]
      exact hcrews c
    · rw [hw]
      abel

theorem Total.setFrame (h : Total wf wc wr s t) {f : Frame τ} (hf : wf f = wf (s.frames k)) :
    Total wf wc wr (s.setFrame k f) t := by
  obtain ⟨a, b, ha, hb, rfl⟩ := h
  exact ⟨a, b, ha.update_same hf, hb, rfl⟩

theorem Total.finish (h : Total wf wc wr s t) (hresume : ∀ f, wf (Frame.resume f) = wf f)
    (j : Job τ) : Total wf wc wr (s.finish j) t := by
  rw [Pools.finish]
  split
  · exact h
  · exact h.setFrame (hresume _)

/-- What the moves do to the weights of what they change. -/
structure Weighing (P : Program τ) (wf : Frame τ → M) (wc wr : Crew (Job τ) → M)
    (R : M → M → Prop) : Prop where
  idle : wf .idle = 0
  fresh : wc (Crew.start 0) = 0
  add : ∀ a b c, R a b → R (a + c) (b + c)
  resume : ∀ f, wf (Frame.resume f) = wf f
  construct : ∀ n rest, R (wf ⟨.construct n :: rest, none⟩) (wf ⟨rest, none⟩ + wc (Crew.start n))
  dispatch : ∀ k b rest c, R (wf ⟨.call b :: rest, none⟩ + wc c)
    (wf ⟨rest, b.awaited⟩ + wc (c.dispatch (b.job k)))
  execute : ∀ b rest c, R (wf ⟨.call b :: rest, none⟩ + wc c)
    (wf ⟨(P.body b.task).map .call ++ rest, none⟩ + wc (c.execute ⟨b.task, none⟩))
  signal : ∀ i rest c, markers c.tasks.pushed < c.threads.length →
    R (wf ⟨.signalling i :: rest, none⟩ + wc c)
      (wf ⟨.signalling (i + 1) :: rest, none⟩ + wc c.signal)
  signalled : ∀ i rest, R (wf ⟨.signalling i :: rest, none⟩) (wf ⟨.joining 0 :: rest, none⟩)
  join : ∀ i rest c c', c.join i = some c' →
    R (wf ⟨.joining i :: rest, none⟩ + wc c) (wf ⟨.joining (i + 1) :: rest, none⟩ + wc c')
  joined : ∀ i rest c, R (wf ⟨.joining i :: rest, none⟩ + wc c) (wf ⟨rest, none⟩ + wr c.free)
  take : ∀ i j c c', c.Takes c' i j → R (wc c) (wf ⟨(P.body j.task).map .call, none⟩ + wc c')
  leave : ∀ i c c', c.Leaves c' i → R (wc c) (wc c')
  finish : ∀ i j c c', c.Finishes c' i j → R (wc c) (wc c')

theorem Weighing.step {ok : Nat → τ → Prop} (hw : Weighing P wf wc wr R) (h : Inv P ok s)
    (ht : Total wf wc wr s t) (hstep : s.step P k = some s') :
    ∃ t', Total wf wc wr s' t' ∧ R t t' := by
  -- a thread executes a statement on the crew at level `p`
  have hexec : ∀ {f f' p c}, s.frames k = f → R (wf f + wc (s.crews p)) (wf f' + wc c) →
      ∃ t', Total wf wc wr ((s.setCrew p c).setFrame k f') t' ∧ R t t' := by
    intro f f' p c hf hR
    obtain ⟨rest, rfl, hset⟩ := ht.split k p
    refine ⟨_, hset f' c _ rfl rfl 0 (zero_add _).symm, ?_⟩
    rw [hf, add_zero]
    exact hw.add _ _ _ hR
  cases step_cases hstep with
  | @construct _ n rest hk =>
    obtain ⟨others, rfl, hset⟩ := ht.split k s.size
    refine ⟨_, hset ⟨rest, none⟩ (Crew.start n) _ rfl rfl 0 (zero_add _).symm, ?_⟩
    rw [hk, h.beyond s.size le_rfl, hw.fresh, add_zero, add_zero]
    exact hw.add _ _ _ (hw.construct n rest)
  | dispatch hk => exact hexec hk (hw.dispatch _ _ _ _)
  | execute hk => exact hexec hk (hw.execute _ _ _)
  | signal hk hsize hlt =>
    obtain rfl := h.eq_main hk fun _ => nofun
    have hmain := h.mainAt hk
    rw [hsize] at hmain
    refine hexec hk (hw.signal _ _ _ ?_)
    rwa [hmain.signalling_inv.1.markers]
  | @signalled _ i _ rest hk =>
    obtain ⟨others, rfl, hset⟩ := ht.split k 0
    refine ⟨_, hset ⟨.joining 0 :: rest, none⟩ (s.crews 0) (s.setFrame k _) rfl
      (Function.update_eq_self _ _).symm 0 (zero_add _).symm, ?_⟩
    rw [hk, add_zero, add_assoc, add_assoc]
    exact hw.add _ _ _ (hw.signalled i rest)
  | join hk _ hjoin => exact hexec hk (hw.join _ _ _ _ hjoin)
  | @joined _ i p rest hk =>
    obtain ⟨others, rfl, hset⟩ := ht.split k p
    refine ⟨_, hset ⟨rest, none⟩ (Crew.start 0) _ rfl rfl (wr (s.crews p).free) ?_, ?_⟩
    · rw [retired_setFrame, retired_retire, List.map_cons, List.sum_cons]
    · rw [hk, hw.fresh, zero_add]
      exact hw.add _ _ _ (hw.joined i rest _)
  | take hidle htake =>
    refine hexec hidle ?_
    rw [hw.idle, zero_add]
    exact hw.take _ _ _ _ htake
  | @leave p i c hidle hleave =>
    obtain ⟨others, rfl, hset⟩ := ht.split (.worker p i) p
    refine ⟨_, hset .idle c (s.setCrew p c) (by rw [← hidle, Function.update_eq_self]; rfl) rfl 0
      (zero_add _).symm, ?_⟩
    rw [hidle, hw.idle, zero_add, zero_add, add_zero]
    exact hw.add _ _ _ (hw.leave _ _ _ hleave)
  | @finish p i j c hidle hfinish =>
    obtain ⟨others, rfl, hset⟩ := ht.split (.worker p i) p
    have hcrew := hset .idle c (s.setCrew p c) (by rw [← hidle, Function.update_eq_self]; rfl) rfl 0
      (zero_add _).symm
    refine ⟨_, hcrew.finish hw.resume j, ?_⟩
    rw [hidle, hw.idle, zero_add, zero_add, add_zero]
    exact hw.add _ _ _ (hw.finish _ _ _ _ hfinish)

theorem Total.start (hidle : wf .idle = 0) (hfresh : wc (Crew.start 0) = 0) :
    Total wf wc wr (start P) (wf ⟨P.main, none⟩) := by
  obtain ⟨rest, hrest, hset⟩ :=
    (HasTotal.of_zero fun _ => hidle : HasTotal wf (fun _ : Caller => Frame.idle) 0).split .main
  rw [hidle, zero_add] at hrest
  refine ⟨_, 0, hset ⟨P.main, none⟩, .of_zero fun _ => hfresh, ?_⟩
  rw [← hrest, add_zero, add_zero]
  exact (add_zero _).symm

end Pools

end Nanonet
