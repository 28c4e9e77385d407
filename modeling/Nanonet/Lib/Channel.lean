import Nanonet.Lib.Lts

/-!
# A FIFO channel

What a bounded or unbounded queue is for: elements come out in the order they went in, none is lost
or duplicated, and no more than the capacity are inside.
-/

namespace Nanonet

variable {α : Type*}

/-- A channel with everything that ever went in and came out. -/
structure Channel (α : Type*) where
  pushed : List α
  popped : List α
  content : List α

namespace Channel

inductive Action (α : Type*) where
  | push (a : α)
  | pop (a : α)

/-- There is room for one more; `none` is no limit. -/
def Room (capacity : Option Nat) (ch : Channel α) : Prop := ∀ n ∈ capacity, ch.content.length < n

inductive Step (capacity : Option Nat) : Channel α → Action α → Channel α → Prop where
  | push (ch : Channel α) (a : α) : Room capacity ch →
      Step capacity ch (.push a) ⟨ch.pushed ++ [a], ch.popped, ch.content ++ [a]⟩
  | pop (pushed popped content : List α) (a : α) :
      Step capacity ⟨pushed, popped, a :: content⟩ (.pop a) ⟨pushed, popped ++ [a], content⟩

/-- Channels of a capacity, from the empty one on. -/
def lts (α : Type*) (capacity : Option Nat) : Lts (Channel α) (Action α) where
  init ch := ch = ⟨[], [], []⟩
  step := Step capacity

/-! ### The two operations as functions -/

def push (ch : Channel α) (a : α) : Channel α := ⟨ch.pushed ++ [a], ch.popped, ch.content ++ [a]⟩

/-- The first element comes out, when there is one. -/
def pop (ch : Channel α) : Option (α × Channel α) :=
  match ch.content with
  | [] => none
  | a :: content => some (a, ⟨ch.pushed, ch.popped ++ [a], content⟩)

theorem push_step (ch : Channel α) (a : α) : Step none ch (.push a) (ch.push a) :=
  .push ch a fun _ h => by cases h

theorem pop_of_content {ch : Channel α} {a : α} {content : List α}
    (h : ch.content = a :: content) :
    ch.pop = some (a, ⟨ch.pushed, ch.popped ++ [a], content⟩) := by
  rw [pop, h]

theorem pop_eq_some {ch ch' : Channel α} {a : α} (h : ch.pop = some (a, ch')) :
    ∃ content, ch.content = a :: content ∧ ch' = ⟨ch.pushed, ch.popped ++ [a], content⟩ := by
  rw [pop] at h
  split at h
  · cases h
  · next content hcontent =>
    cases h
    exact ⟨content, hcontent, rfl⟩

theorem pop_step {capacity : Option Nat} {ch ch' : Channel α} {a : α}
    (h : ch.pop = some (a, ch')) : Step capacity ch (.pop a) ch' := by
  obtain ⟨content, hcontent, rfl⟩ := pop_eq_some h
  obtain ⟨pushed, popped, _⟩ := ch
  subst hcontent
  exact .pop pushed popped content a

theorem fifo {capacity : Option Nat} {ch : Channel α} (h : (lts α capacity).Reachable ch) :
    ch.popped ++ ch.content = ch.pushed ∧ ∀ n ∈ capacity, ch.content.length ≤ n := by
  refine h.invariant (P := fun ch => ch.popped ++ ch.content = ch.pushed ∧
    ∀ n ∈ capacity, ch.content.length ≤ n) ?_ ?_
  · rintro ch rfl
    exact ⟨rfl, fun n _ => Nat.zero_le n⟩
  · rintro ch a ch' - ⟨horder, hlen⟩ hstep
    cases hstep with
    | push _ a hroom =>
      refine ⟨by rw [← horder, List.append_assoc], fun n hn => ?_⟩
      rw [List.length_append]
      exact hroom n hn
    | pop pushed popped content a =>
      refine ⟨?_, fun n hn => Nat.le_of_succ_le (hlen n hn)⟩
      rw [List.append_assoc]
      exact horder

end Channel

end Nanonet
