import Nanonet.Net.PutArea

/-!
# The blocks of a buffered message

What an `ostreambuf` hands to a writer that never fails, character by character: blocks of the size
of the buffer, and at a `sync` what is left (`Fed.sync`). A message is cut at a place that depends on
its length only.
-/

namespace Nanonet

namespace PutBuffer

variable {σ α : Type} [Writer σ α]

/-- The writer after it has written the blocks. -/
def writeAll (w : σ) (blocks : List (List α)) : σ := blocks.foldl (fun w c => (Writer.write w c).2) w

theorem writeAll_concat (w : σ) (blocks : List (List α)) (c : List α) :
    writeAll w (blocks ++ [c]) = (Writer.write (writeAll w blocks) c).2 := by
  simp [writeAll]

class Reliable (σ : Type) {α : Type} [Writer σ α] : Prop where
  write_nonneg : ∀ (w : σ) (c : List α), 0 ≤ (Writer.write w c).1

/-- The characters `fed` have gone into an empty buffer over the writer `w`: the blocks `blocks` are
written, each of the size of the buffer, and the rest is pending. -/
structure Fed (w : σ) (fed : List α) (blocks : List (List α)) (b : PutBuffer) (m : Heap σ α) :
    Prop where
  ordered : b.Ordered
  attached : b.rw = true
  split : fed = blocks.flatten ++ b.pending m
  full : ∀ c ∈ blocks, c.length = b.size
  room : (b.pending m).length < b.size
  writer : m.rw = writeAll w blocks

variable {w : σ} {fed : List α} {blocks : List (List α)} {b : PutBuffer} {m : Heap σ α}

omit [Writer σ α] in
theorem pending_eq_nil (h : b.pptr = b.pbase) (m : Heap σ α) : b.pending m = [] := by
  rw [pending, h, Nat.sub_self]
  rfl

omit [Writer σ α] in
theorem pending_reset (b : PutBuffer) (m : Heap σ α) : { b with pptr := b.pbase }.pending m = [] :=
  pending_eq_nil rfl m

theorem flush_writes [Reliable σ] (hrw : b.rw = true) (hlt : b.pbase < b.pptr)
    (hwriter : m.rw = writeAll w blocks) :
    b.flush m = (true, { b with pptr := b.pbase },
      { m with rw := writeAll w (blocks ++ [b.pending m]) }) := by
  rw [flush_of_pending hrw hlt, if_neg (Int.not_lt.2 (Reliable.write_nonneg _ _)), hwriter,
    writeAll_concat]

theorem sputc_full [Reliable σ] (hle : b.pbase ≤ b.pptr) (hfull : ¬ b.pptr < b.epptr)
    (hrw : b.rw = true) (hwriter : m.rw = writeAll w blocks) (c : α) :
    b.sputc c m = (some c, { b with pptr := b.pbase },
      ⟨(b.append c m).2.mem, writeAll w (blocks ++ [b.pending m ++ [c]])⟩) := by
  have hnonempty : (b.append c m).1.pbase < (b.append c m).1.pptr := by
    rw [pptr_append]
    exact Nat.lt_succ_of_le hle
  have hflush := flush_writes (b := (b.append c m).1) (m := (b.append c m).2) hrw hnonempty hwriter
  rw [PutBuffer.sputc, if_neg hfull, overflow, hflush, pending_append hle]
  rfl

theorem Fed.sputc [Reliable σ] (h : Fed w fed blocks b m) (c : α) :
    (b.sputc c m).1 = some c ∧ (b.sputc c m).2.1.size = b.size ∧
      ∃ blocks', Fed w (fed ++ [c]) blocks' (b.sputc c m).2.1 (b.sputc c m).2.2 := by
  have hroom := h.room
  obtain ⟨hbase, hle, hepptr, hsize⟩ := h.ordered
  have hsplit : fed ++ [c] = blocks.flatten ++ (b.pending m ++ [c]) := by
    rw [h.split, List.append_assoc]
  have hlength : (b.pending m ++ [c]).length = b.pptr - b.pbase + 1 := by
    rw [List.length_append, length_pending]
    rfl
  rw [length_pending] at hroom
  by_cases hlt : b.pptr < b.epptr
  · have hpending := pending_append hle c m
    rw [PutBuffer.sputc, if_pos hlt]
    refine ⟨rfl, rfl, blocks, h.ordered.append c m, h.attached, ?_, h.full, ?_, h.writer⟩
    · rw [hpending, hsplit]
    · rw [hpending, hlength]
      show b.pptr - b.pbase + 1 < b.size
      omega
  · rw [sputc_full hle hlt h.attached h.writer]
    refine ⟨rfl, rfl, blocks ++ [b.pending m ++ [c]], h.ordered.withPptr (Nat.le_refl _),
      h.attached, ?_, ?_, ?_, rfl⟩
    · rw [pending_reset, List.append_nil, hsplit]
      simp
    · intro block hblock
      obtain hold | rfl := by simpa using hblock
      · exact h.full block hold
      · show (b.pending m ++ [c]).length = b.size
        omega
    · rw [pending_reset]
      exact hsize

theorem Fed.start (hordered : b.Ordered) (hrw : b.rw = true) (hempty : b.pptr = b.pbase) :
    Fed m.rw [] [] b m := by
  have hpending := pending_eq_nil hempty m
  exact ⟨hordered, hrw, by simp [hpending], by simp, by rw [hpending]; exact hordered.size, rfl⟩

omit [Writer σ α] in
theorem cut_flatten {c : List α} (rest : List (List α)) {size : Nat}
    (h : c.length = size ∨ c.length ≤ size ∧ rest = []) :
    (c :: rest).flatten.take size = c ∧ (c :: rest).flatten.drop size = rest.flatten := by
  rw [List.flatten_cons]
  obtain rfl | ⟨hle, rfl⟩ := h
  · exact ⟨List.take_left, List.drop_left⟩
  · simp [List.take_of_length_le hle, hle]

theorem Fed.sync [Reliable σ] (h : Fed w fed blocks b m) (hne : fed ≠ []) :
    (b.sync m).1 = 0 ∧ (b.sync m).2.1 = { b with pptr := b.pbase } ∧
      ∃ rest, (b.sync m).2.2.rw = writeAll w (fed.take b.size :: rest) ∧
        rest.flatten = fed.drop b.size ∧ ∀ block ∈ rest, block ≠ [] := by
  have hsize := h.ordered.size
  have hfull : ∀ block ∈ blocks, block ≠ [] := fun block hblock hnil => by
    have hlength := h.full block hblock
    rw [hnil] at hlength
    exact absurd hlength.symm (Nat.ne_of_gt hsize)
  rw [PutBuffer.sync]
  obtain heq | hlt := Nat.eq_or_lt_of_le h.ordered.le
  · rw [flush_of_empty heq.symm]
    have hsplit : fed = blocks.flatten := by
      rw [h.split, pending_eq_nil heq.symm, List.append_nil]
    obtain ⟨c, rest, rfl⟩ : ∃ c rest, blocks = c :: rest :=
      List.exists_cons_of_ne_nil fun hnil => hne (by rw [hsplit, hnil]; rfl)
    obtain ⟨htake, hdrop⟩ := cut_flatten rest (.inl (h.full c (by simp)))
    refine ⟨rfl, PutBuffer.ext rfl heq.symm rfl rfl rfl rfl, rest, ?_, ?_,
      fun block hblock => hfull block (by simp [hblock])⟩
    · rw [hsplit, htake]
      exact h.writer
    · rw [hsplit, hdrop]
  · rw [flush_writes h.attached hlt h.writer]
    have hlast : b.pending m ≠ [] := by
      rw [← List.length_pos_iff, length_pending]
      omega
    have hsplit : fed = (blocks ++ [b.pending m]).flatten := by rw [h.split]; simp
    refine ⟨rfl, rfl, ?_⟩
    cases blocks with
    | nil =>
      obtain ⟨htake, hdrop⟩ := cut_flatten [] (.inr ⟨Nat.le_of_lt h.room, rfl⟩)
      exact ⟨[], by rw [hsplit]; exact congrArg (fun c => writeAll w [c]) htake.symm,
        by rw [hsplit]; exact hdrop.symm, by simp⟩
    | cons c rest =>
      obtain ⟨htake, hdrop⟩ := cut_flatten (rest ++ [b.pending m]) (.inl (h.full c (by simp)))
      refine ⟨rest ++ [b.pending m], ?_, by rw [hsplit]; exact hdrop.symm, fun block hblock => ?_⟩
      · rw [hsplit]
        exact congrArg (fun c => writeAll w (c :: (rest ++ [b.pending m]))) htake.symm
      · obtain hold | rfl := by simpa using hblock
        · exact hfull block (by simp [hold])
        · exact hlast

end PutBuffer

end Nanonet
