import Mathlib.Data.Stream.Init

/-!
# Readers that take an item back

A reader gives one item after the other or fails, and takes the item back that it has just given. What
it has still to give is a stream. Reading takes the head off it, and reading and giving back leaves it
as it was, so what is read between two states is a list that stands before what is left
(`Reads.trans`).
-/

namespace Nanonet

variable {σ ε α : Type}

/-- `next` gives an item or fails; `putback` undoes a call that gave one. -/
structure Pushback (σ ε α : Type) where
  next : σ → Except ε α × σ
  putback : σ → σ
  next_putback : ∀ {s s' : σ} {a : α}, next s = (.ok a, s') → next (putback s') = (.ok a, s')

namespace Pushback

variable {R : Pushback σ ε α} {s s' s'' : σ}

/-- What is given from `s` on, failures included. -/
def upcoming (R : Pushback σ ε α) : σ → Stream' (Except ε α) := Stream'.corec' R.next

theorem upcoming_eq (R : Pushback σ ε α) (s : σ) :
    R.upcoming s = Stream'.cons (R.next s).1 (R.upcoming (R.next s).2) :=
  Stream'.corec'_eq R.next s

theorem upcoming_of_next {r : Except ε α} (h : R.next s = (r, s')) :
    R.upcoming s = Stream'.cons r (R.upcoming s') := by
  rw [upcoming_eq, h]

theorem upcoming_putback {a : α} (h : R.next s = (.ok a, s')) :
    R.upcoming (R.putback s') = R.upcoming s := by
  rw [upcoming_of_next h, upcoming_of_next (R.next_putback h)]

/-- Two ways to read give the same where they agree on what is kept. -/
theorem upcoming_congr {f : σ → Except ε α × σ} (P : σ → Prop)
    (hagree : ∀ s, P s → R.next s = f s) (hkept : ∀ s, P s → P (R.next s).2) (hs : P s) :
    R.upcoming s = Stream'.corec' f s := by
  refine Stream'.ext fun n => ?_
  induction n generalizing s with
  | zero =>
    rw [upcoming_eq, Stream'.corec'_eq, hagree s hs]
    rfl
  | succ n ih =>
    have hstep := ih (hkept s hs)
    rw [upcoming_eq, Stream'.corec'_eq, ← hagree s hs]
    exact hstep

/-- From `s` to `s'` the items `p` are read and no others. -/
def Reads (R : Pushback σ ε α) (s : σ) (p : List (Except ε α)) (s' : σ) : Prop :=
  R.upcoming s = p ++ₛ R.upcoming s'

theorem Reads.trans {p q : List (Except ε α)} (h : R.Reads s p s') (h' : R.Reads s' q s'') :
    R.Reads s (p ++ q) s'' := by
  rw [Reads, Stream'.append_append_stream, ← h']
  exact h

theorem Reads.of_next {r : Except ε α} (h : R.next s = (r, s')) : R.Reads s [r] s' :=
  upcoming_of_next h

theorem Reads.of_putback {a : α} (h : R.next s = (.ok a, s')) : R.Reads s [] (R.putback s') :=
  (upcoming_putback h).symm

/-- The first item that was read is the one that was given next. -/
theorem Reads.head_eq {p : List (Except ε α)} {a r : Except ε α} (h : R.Reads s (a :: p) s')
    (hnext : R.next s = (r, s'')) : a = r := by
  rw [Reads, upcoming_of_next hnext] at h
  exact (Stream'.cons_injective2 h).1.symm

end Pushback

end Nanonet
