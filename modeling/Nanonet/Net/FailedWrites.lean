import Nanonet.Lib.Lts
import Nanonet.Net.PutArea

/-!
# An output stream buffer whose writes fail

`overflow` stores the character first and flushes afterwards. Where the flush does not empty the
buffer, the character stays in it although the caller is told that it was not accepted, and the put
pointer stays at the end of the buffer, where the next character is stored outside. Both laws that
break are restored by the condition that the step does not start there.
-/

namespace Nanonet

/-- A call that a reader_writer receives; a block is taken as a whole or not at all. -/
inductive RwCall (α : Type*)
  | write (block : List α) (taken : Bool)
  | shutdownWrite
deriving DecidableEq, Repr

/-- A reader_writer whose writes have the outcomes of a script. -/
structure Scripted (α : Type*) where
  /-- Whether the next write succeeds, the one after it, and so on. -/
  script : Nat → Bool
  calls : List (RwCall α)

namespace Scripted

variable {α : Type*}

instance : Writer (Scripted α) α where
  write s block :=
    (if s.script 0 then block.length else -1,
      ⟨fun k => s.script (k + 1), s.calls ++ [.write block (s.script 0)]⟩)
  shutdownWrite s := { s with calls := s.calls ++ [.shutdownWrite] }

def taken : RwCall α → List α
  | .write block true => block
  | .write _ false | .shutdownWrite => []

/-- The characters that the successful writes took. -/
def sent (s : Scripted α) : List α := s.calls.flatMap taken

end Scripted

open PutBuffer

/-- What a caller does with the buffer. -/
inductive PutOp (α : Type*)
  | sputc (c : α)
  | overflowEof
  | sync
deriving DecidableEq, Repr

/-- The buffer, what it shares, and the characters for which `sputc` did not return `EOF`. -/
structure PutState (α : Type*) where
  b : PutBuffer
  m : Heap (Scripted α) α
  accepted : List α

namespace PutState

variable {α : Type*}

def start (rw : Bool) (buffer size : Nat) (mem : Memory α) (script : Nat → Bool) : PutState α :=
  ⟨construct rw buffer size, ⟨mem, ⟨script, []⟩⟩, []⟩

def exec (s : PutState α) : PutOp α → PutState α
  | .sputc c =>
    let r := s.b.sputc c s.m
    ⟨r.2.1, r.2.2, s.accepted ++ r.1.toList⟩
  | .overflowEof =>
    let r := s.b.overflow none s.m
    { s with b := r.2.1, m := r.2.2 }
  | .sync =>
    let r := s.b.sync s.m
    { s with b := r.2.1, m := r.2.2 }

/-- The put pointer is in the buffer or at its end. -/
def Inside (buffer size : Nat) (s : PutState α) : Prop :=
  s.b.pbase = buffer ∧ s.b.pbase ≤ s.b.pptr ∧ s.b.pptr ≤ s.b.pbase + size

/-- A character is stored in the buffer. -/
def StoresInside (buffer size : Nat) (s : PutState α) : PutOp α → Prop
  | .sputc _ => buffer ≤ s.b.pptr ∧ s.b.pptr < buffer + size
  | .overflowEof | .sync => True

/-- No character is put while the put pointer is at the end of the buffer. -/
def NotFull (buffer size : Nat) (s : PutState α) : PutOp α → Prop
  | .sputc _ => s.b.pptr ≠ buffer + size
  | .overflowEof | .sync => True

/-- The characters that were sent, and those that are pending. -/
def total (s : PutState α) : List α := s.m.rw.sent ++ s.b.pending s.m

/-- What was accepted was sent or is pending, in order, and nothing else. -/
def Delivered (s : PutState α) : Prop := s.total = s.accepted

/-- No write that the overflow of `sputc` makes fails. -/
def NoFailingPut (s : PutState α) : PutOp α → Prop
  | .sputc _ => s.b.pptr < s.b.epptr ∨ s.m.rw.script 0 = true
  | .overflowEof | .sync => True

variable {buffer size : Nat} {s : PutState α} {op : PutOp α}

/-! ### The put pointer -/

theorem exec_frame (h : s.b.pbase ≤ s.b.pptr) (op : PutOp α) :
    ∃ p, (s.exec op).b = { s.b with pptr := p } ∧
      (p = s.b.pbase ∨ p = s.b.pptr ∨ (∃ c, op = .sputc c) ∧ p = s.b.pptr + 1) := by
  cases op with
  | sputc c =>
    obtain ⟨p, hp, hcases | hcases⟩ := sputc_frame h c s.m
    · exact ⟨p, hp, .inr (.inr ⟨⟨c, rfl⟩, hcases⟩)⟩
    · exact ⟨p, hp, .inl hcases⟩
  | overflowEof =>
    obtain ⟨p, hp, hcases⟩ := flush_frame h s.m
    exact ⟨p, hp, by tauto⟩
  | sync =>
    obtain ⟨p, hp, hcases⟩ := flush_frame h s.m
    exact ⟨p, hp, by tauto⟩

theorem inside_start (rw : Bool) (buffer size : Nat) (mem : Memory α) (script : Nat → Bool) :
    (start rw buffer size mem script).Inside buffer size :=
  ⟨rfl, Nat.le_refl _, Nat.le_add_right _ _⟩

theorem inside_step (h : s.Inside buffer size) :
    s.StoresInside buffer size op ∧ (s.exec op).Inside buffer size ↔ s.NotFull buffer size op := by
  obtain ⟨hbase, hle, hend⟩ := h
  obtain ⟨p, hp, hcases⟩ := exec_frame hle op
  rw [Inside, hp]
  cases op with
  | sputc c =>
    simp only [StoresInside, NotFull]
    constructor
    · omega
    · intro hne
      refine ⟨by omega, hbase, ?_, ?_⟩
      · omega
      · omega
  | overflowEof =>
    simp only [StoresInside, NotFull, reduceCtorEq, exists_false, false_and, or_false, true_and,
      iff_true] at hcases ⊢
    omega
  | sync =>
    simp only [StoresInside, NotFull, reduceCtorEq, exists_false, false_and, or_false, true_and,
      iff_true] at hcases ⊢
    omega

/-- The put pointer stays in the buffer exactly along the runs that put no character while it stands
at the end. -/
theorem inside_iff_notFull (rw : Bool) (buffer size : Nat) (mem : Memory α)
    (script : Nat → Bool) (ops : List (PutOp α)) :
    (start rw buffer size mem script).Inside buffer size ∧
      Along exec (fun s op => s.StoresInside buffer size op ∧ (s.exec op).Inside buffer size)
        (start rw buffer size mem script) ops ↔
      Along exec (NotFull buffer size) (start rw buffer size mem script) ops := by
  have hstart := inside_start rw buffer size mem script
  rw [and_iff_right hstart]
  refine along_iff ?_ ?_ hstart
  · intro s op hs
    exact inside_step hs
  · intro s op hs hop
    exact ((inside_step hs).2 hop).2

/-! ### What is sent -/

theorem sent_write (rw : Scripted α) (block : List α) :
    (Writer.write rw block).2.sent = rw.sent ++ (if rw.script 0 then block else []) := by
  simp only [Writer.write, Scripted.sent, List.flatMap_append, List.flatMap_singleton]
  cases rw.script 0 <;> rfl

theorem write_neg_iff (rw : Scripted α) (block : List α) :
    (Writer.write rw block).1 < 0 ↔ rw.script 0 = false := by
  simp only [Writer.write]
  cases rw.script 0
  · simp
  · simp

theorem flush_total {b : PutBuffer} (m : Heap (Scripted α) α) (hrw : b.rw = true)
    (hle : b.pbase ≤ b.pptr) :
    (b.flush m).2.2.rw.sent ++ (b.flush m).2.1.pending (b.flush m).2.2 =
        m.rw.sent ++ b.pending m ∧
      ((b.flush m).1 = true ↔ b.pptr = b.pbase ∨ m.rw.script 0 = true) := by
  rcases Nat.eq_or_lt_of_le hle with heq | hlt
  · rw [flush_of_empty heq.symm]
    simp [heq]
  · rw [flush_of_pending hrw hlt]
    cases hscript : m.rw.script 0 with
    | false =>
      rw [if_pos ((write_neg_iff _ _).2 hscript), sent_write, hscript]
      refine ⟨?_, ?_⟩
      · simp [pending]
      · simp
        omega
    | true =>
      rw [if_neg (by rw [write_neg_iff, hscript]; simp), sent_write, hscript]
      simp [pending]

theorem sputc_total {b : PutBuffer} (m : Heap (Scripted α) α) (hrw : b.rw = true)
    (hle : b.pbase ≤ b.pptr) (c : α) :
    (b.sputc c m).2.2.rw.sent ++ (b.sputc c m).2.1.pending (b.sputc c m).2.2 =
        m.rw.sent ++ b.pending m ++ [c] ∧
      (b.sputc c m).1 = if b.pptr < b.epptr ∨ m.rw.script 0 = true then some c else none := by
  have hpending := pending_append hle c m
  have hlt : (b.append c m).1.pbase < (b.append c m).1.pptr := by
    rw [pptr_append]
    exact Nat.lt_succ_of_le hle
  rw [sputc]
  by_cases hroom : b.pptr < b.epptr
  · rw [if_pos hroom, if_pos (.inl hroom), hpending, List.append_assoc]
    exact ⟨rfl, rfl⟩
  · obtain ⟨htotal, hok⟩ := flush_total (b := (b.append c m).1) (b.append c m).2 hrw
      (Nat.le_of_lt hlt)
    rw [or_iff_right (Nat.ne_of_gt hlt)] at hok
    rw [if_neg hroom]
    refine ⟨?_, ?_⟩
    · rw [hpending] at htotal
      rw [List.append_assoc]
      exact htotal
    · simp only [overflow, hroom, false_or]
      exact if_congr hok rfl rfl

theorem delivered_step (hrw : s.b.rw = true) (hle : s.b.pbase ≤ s.b.pptr) (h : s.Delivered) :
    (s.exec op).Delivered ↔ s.NoFailingPut op := by
  rw [Delivered, total] at h
  cases op with
  | sputc c =>
    obtain ⟨htotal, hret⟩ := sputc_total s.m hrw hle c
    simp only [Delivered, total, exec, NoFailingPut]
    rw [htotal, hret, h]
    split
    · next hok => simp [hok]
    · next hfail => simp [hfail]
  | overflowEof =>
    have htotal := (flush_total s.m hrw hle).1
    rw [h] at htotal
    exact iff_of_true htotal trivial
  | sync =>
    have htotal := (flush_total s.m hrw hle).1
    rw [h] at htotal
    exact iff_of_true htotal trivial

/-- The invariant of a buffer with a reader_writer. -/
structure Attached (s : PutState α) : Prop where
  rw : s.b.rw = true
  le : s.b.pbase ≤ s.b.pptr

theorem Attached.exec (h : s.Attached) (op : PutOp α) : (s.exec op).Attached := by
  have hle := h.le
  obtain ⟨p, hp, hcases⟩ := exec_frame hle op
  refine ⟨by rw [hp]; exact h.rw, ?_⟩
  rw [hp]
  dsimp only
  omega

/-- What was accepted was sent or is pending, in order and nothing else, exactly along the runs in
which no write that `sputc` makes fails. -/
theorem delivered_iff_noFailingPut (buffer size : Nat) (mem : Memory α) (script : Nat → Bool)
    (ops : List (PutOp α)) :
    (start true buffer size mem script).Delivered ∧
      Along exec (fun s op => (s.exec op).Delivered) (start true buffer size mem script) ops ↔
      Along exec NoFailingPut (start true buffer size mem script) ops := by
  have hstart : (start true buffer size mem script).Delivered := by
    simp [Delivered, total, start, Scripted.sent, pending, construct, setp]
  have hattached : (start true buffer size mem script).Attached := ⟨rfl, Nat.le_refl _⟩
  rw [and_iff_right hstart]
  refine along_iff (I := fun s => s.Attached ∧ s.Delivered) ?_ ?_ ⟨hattached, hstart⟩
  · rintro s op ⟨hs, hdelivered⟩
    exact delivered_step hs.rw hs.le hdelivered
  · rintro s op ⟨hs, hdelivered⟩ hop
    exact ⟨hs.exec op, (delivered_step hs.rw hs.le hdelivered).2 hop⟩

/-- A buffer of one character, without a reader_writer and with one whose write fails: the second
character is stored behind the buffer. -/
theorem second_put_outside :
    (¬ Along exec (fun s op => s.StoresInside 16 1 op ∧ (s.exec op).Inside 16 1)
      (start false 16 1 (fun _ => 'x') fun _ => true) [.sputc 'a', .sputc 'b']) ∧
    ¬ Along exec (fun s op => s.StoresInside 16 1 op ∧ (s.exec op).Inside 16 1)
      (start true 16 1 (fun _ => 'x') fun _ => false) [.sputc 'a', .sputc 'b'] := by
  constructor
  · rintro ⟨-, ⟨⟨-, hlt⟩, -⟩, -⟩
    revert hlt
    decide
  · rintro ⟨-, ⟨⟨-, hlt⟩, -⟩, -⟩
    revert hlt
    decide

/-- A buffer of one character, whose first write fails: `sputc` reports `EOF`, and the character is
sent all the same. -/
theorem refused_then_sent :
    let s := [PutOp.sputc 'a', .sync].foldl exec (start true 16 1 (fun _ => 'x') fun k => k ≠ 0)
    s.Inside 16 1 ∧ s.m.rw.sent = ['a'] ∧ s.accepted = [] ∧ ¬ s.Delivered := by
  refine ⟨⟨by decide, by decide, by decide⟩, by decide, by decide, ?_⟩
  unfold Delivered
  decide

end PutState

end Nanonet
