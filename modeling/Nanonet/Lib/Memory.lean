import Mathlib.Data.List.Basic
import Mathlib.Logic.Function.Basic

/-!
# Flat memory

Cells with natural addresses, read and written one at a time or a block at a time. What a block holds
after a write is said by three lemmas: the block that was written holds what was written to it
(`block_fill_self`), one that does not meet it is as before (`block_fill_of_disjoint`), and a write
that goes on where another one ended is one write (`fill_append`).
-/

namespace Nanonet

def Memory (β : Type*) := Nat → β

namespace Memory

variable {β : Type*} {m m' : Memory β} {a b n : Nat} {xs ys : List β}

def block (m : Memory β) (a n : Nat) : List β := (List.range n).map fun i => m (a + i)

def fill (m : Memory β) (a : Nat) (xs : List β) : Memory β := fun b =>
  if a ≤ b then (xs[b - a]?).getD (m b) else m b

def store (m : Memory β) (a : Nat) (x : β) : Memory β := m.fill a [x]

/-- The `n` cells from `src` on are copied to `dst`; the two blocks may overlap. -/
def move (m : Memory β) (dst src n : Nat) : Memory β := m.fill dst (m.block src n)

@[simp] theorem length_block (m : Memory β) (a n : Nat) : (m.block a n).length = n := by
  simp [block]

@[simp] theorem block_zero (m : Memory β) (a : Nat) : m.block a 0 = [] := rfl

theorem getElem?_block (m : Memory β) (a n i : Nat) :
    (m.block a n)[i]? = if i < n then some (m (a + i)) else none := by
  rw [block, List.getElem?_map]
  split
  · next h => rw [List.getElem?_range h]; rfl
  · next h => rw [List.getElem?_eq_none (by simpa using h)]; rfl

theorem block_add (m : Memory β) (a n k : Nat) :
    m.block a (n + k) = m.block a n ++ m.block (a + n) k := by
  simp only [block, List.range_add, List.map_append, List.map_map]
  congr 1
  apply List.map_congr_left
  intro i _
  simp only [Function.comp_apply, Nat.add_assoc]

theorem block_one (m : Memory β) (a : Nat) : m.block a 1 = [m a] := rfl

theorem block_succ (m : Memory β) (a n : Nat) : m.block a (n + 1) = m a :: m.block (a + 1) n := by
  rw [Nat.add_comm, block_add, block_one, List.singleton_append]

theorem block_congr (h : ∀ i < n, m (a + i) = m' (b + i)) : m.block a n = m'.block b n := by
  apply List.map_congr_left
  intro i hi
  exact h i (List.mem_range.1 hi)

theorem block_inj : m.block a n = m'.block a n ↔ ∀ i < n, m (a + i) = m' (a + i) := by
  constructor
  · intro h i hi
    have hcell := congrArg (·[i]?) h
    simpa only [getElem?_block, if_pos hi, Option.some.injEq] using hcell
  · exact block_congr

theorem fill_of_lt (h : b < a) : m.fill a xs b = m b := if_neg (Nat.not_le.2 h)

theorem fill_of_ge (h : a + xs.length ≤ b) : m.fill a xs b = m b := by
  rw [fill, if_pos (by omega), List.getElem?_eq_none (by omega)]
  rfl

theorem fill_add (m : Memory β) (a i : Nat) (xs : List β) :
    m.fill a xs (a + i) = (xs[i]?).getD (m (a + i)) := by
  rw [fill, if_pos (Nat.le_add_right _ _), Nat.add_sub_cancel_left]

theorem block_fill_self (m : Memory β) (a : Nat) (xs : List β) :
    (m.fill a xs).block a xs.length = xs := by
  apply List.ext_getElem?
  intro i
  rw [getElem?_block]
  split
  · next h =>
    rw [fill_add, List.getElem?_eq_getElem h]
    rfl
  · next h => rw [List.getElem?_eq_none (Nat.not_lt.1 h)]

/-- A block that does not meet the one written is as before. -/
theorem block_fill_of_disjoint (h : b + n ≤ a ∨ a + xs.length ≤ b) :
    (m.fill a xs).block b n = m.block b n := by
  apply block_congr
  intro i hi
  rcases h with h | h
  · exact fill_of_lt (by omega)
  · exact fill_of_ge (by omega)

@[simp] theorem fill_nil (m : Memory β) (a : Nat) : m.fill a [] = m := by
  funext b
  by_cases h : a ≤ b <;> simp [fill, h]

theorem fill_append (m : Memory β) (a : Nat) (xs ys : List β) :
    (m.fill a xs).fill (a + xs.length) ys = m.fill a (xs ++ ys) := by
  funext b
  rcases Nat.lt_or_ge b a with h | h
  · rw [fill_of_lt h, fill_of_lt (by omega), fill_of_lt h]
  · obtain ⟨i, rfl⟩ := Nat.exists_eq_add_of_le h
    rcases Nat.lt_or_ge i xs.length with hi | hi
    · rw [fill_of_lt (by omega), fill_add, fill_add, List.getElem?_append_left hi]
    · obtain ⟨j, rfl⟩ := Nat.exists_eq_add_of_le hi
      rw [fill_add, List.getElem?_append_right hi, Nat.add_sub_cancel_left, ← Nat.add_assoc,
        fill_add, fill_of_ge (Nat.le_add_right _ _)]

end Memory

end Nanonet
