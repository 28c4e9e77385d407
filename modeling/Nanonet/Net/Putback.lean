import Nanonet.Lib.Lts
import Nanonet.Net.InputOnce

/-!
# The putback area across failing reads

`underflow` moves the history before it reads, and moves the pointers only after the read succeeded.
A refill that succeeds is right about the history. One that fails leaves the old pointers over memory
where the beginning of the history was overwritten by its end, which shows unless the characters that
were moved there are the ones that were there before.
-/

namespace Nanonet

variable {α : Type*} {b : GetBuffer} {s : GetState α} {op : GetOp} {buffer size sizePb : Nat}

namespace GetState

/-! ### The specification -/

/-- The characters that can be put back are the last ones before the read position. -/
def TrueHistory (s : GetState α) : Prop := s.history <:+ s.m.received.take s.pos

instance [DecidableEq α] (s : GetState α) : Decidable s.TrueHistory :=
  inferInstanceAs (Decidable (_ <:+ _))

/-- What the putback area promises of one operation. -/
structure KeepsHistory (sizePb : Nat) (s : GetState α) (op : GetOp) : Prop where
  history : (s.exec op).TrueHistory
  /-- After a refill as much history is there as before, up to the size of the area. -/
  refilled : op ≠ .sungetc → ¬ s.b.gptr < s.b.egptr → (s.call op).1 ≠ none →
    min sizePb (s.b.gptr - s.b.eback) ≤ (s.exec op).b.gptr - (s.exec op).b.eback
  /-- An operation that reports the end changes nothing of the history. -/
  failed : op ≠ .sungetc → (s.call op).1 = none →
    (s.exec op).b.eback = s.b.eback ∧ (s.exec op).b.gptr = s.b.gptr ∧ (s.exec op).history = s.history
  /-- The character put back is the one before the read position, and is read again. -/
  putBack : op = .sungetc → ∀ c, (s.call op).1 = some c →
    1 ≤ s.pos ∧ s.m.received[s.pos - 1]? = some c ∧ ((s.exec op).call .sbumpc).1 = some c

/-- Each character of the history in the putback area is the one that is as many places behind it as
the last read delivered bytes. -/
def Harmless (s : GetState α) : Prop :=
  ∀ i, s.b.eback ≤ i → i < s.b.buffer + s.b.sizePb →
    s.m.mem i = s.m.mem (i + (s.b.gptr - (s.b.buffer + s.b.sizePb)))

/-- Where the operation makes a read that fails, moving the history is harmless. -/
def FailsHarmlessly (s : GetState α) (op : GetOp) : Prop :=
  op ≠ .sungetc → ¬ s.b.gptr < s.b.egptr → (s.m.script 0).Fails → s.Harmless

/-! ### The invariant -/

/-- The get area holds the end of the input, and the read position is where its rest begins. -/
structure Recent (buffer size sizePb : Nat) (s : GetState α) : Prop where
  placed : s.b.Placed buffer size sizePb
  window : s.m.mem.block s.b.eback (s.b.egptr - s.b.eback) <:+ s.m.received
  pos : s.pos + (s.b.egptr - s.b.gptr) = s.m.received.length

theorem recent_start (buffer size sizePb : Nat) (mem : Memory α) (script : Nat → ReadOutcome α) :
    (start buffer size sizePb mem script).Recent buffer size sizePb where
  placed := GetBuffer.placed_construct _ _ _
  window := by simp [start, GetBuffer.construct, GetBuffer.setg]
  pos := by simp [start, GetBuffer.construct, GetBuffer.setg]

theorem window_eq (h : s.b.Placed buffer size sizePb) :
    s.m.mem.block s.b.eback (s.b.egptr - s.b.eback) = s.history ++ s.unread := by
  have hgptr := h.gptr
  have hegptr := h.egptr
  have hlen : s.b.egptr - s.b.eback = (s.b.gptr - s.b.eback) + (s.b.egptr - s.b.gptr) := by omega
  have hat : s.b.eback + (s.b.gptr - s.b.eback) = s.b.gptr := by omega
  rw [hlen, Memory.block_add, hat, history, unread]

theorem Recent.split (h : s.Recent buffer size sizePb) :
    ∃ older, s.m.received = older ++ s.history ++ s.unread ∧
      s.pos = (older ++ s.history).length := by
  obtain ⟨older, hwindow⟩ := h.window
  have hpos := h.pos
  rw [window_eq h.placed, ← List.append_assoc] at hwindow
  refine ⟨older, hwindow.symm, ?_⟩
  have hunread : s.unread.length = s.b.egptr - s.b.gptr := Memory.length_block _ _ _
  rw [← hwindow, List.length_append, hunread] at hpos
  omega

theorem Recent.trueHistory (h : s.Recent buffer size sizePb) : s.TrueHistory := by
  obtain ⟨older, hreceived, hpos⟩ := h.split
  rw [TrueHistory, hreceived, hpos, List.take_left]
  exact List.suffix_append _ _

/-! ### The operations -/

theorem Recent.take (h : s.Recent buffer size sizePb) (hop : op ≠ .sungetc)
    (hlt : s.b.gptr < s.b.egptr) : (s.exec op).Recent buffer size sizePb := by
  rw [exec_of_lt hop hlt]
  refine ⟨h.placed.advance hlt op, h.window, ?_⟩
  have hpos := h.pos
  cases op with
  | sungetc => exact absurd rfl hop
  | sgetc => simpa [GetOp.taken, gbump_zero] using hpos
  | sbumpc =>
    simp only [GetOp.taken, GetBuffer.gbump]
    omega

theorem Recent.refill (h : s.Recent buffer size sizePb) (hempty : ¬ s.b.gptr < s.b.egptr)
    {bytes : List α} (hbytes : bytes.length ≤ size) :
    (s.refill bytes).Recent buffer size sizePb := by
  have hegptr := h.placed.egptr
  have hgptr := h.placed.gptr
  have hn := s.b.n_pb_le
  have hpos := h.pos
  refine ⟨h.placed.refilled hbytes, ?_, ?_⟩
  · have hlen : s.b.egptr - s.b.eback = (s.b.gptr - s.b.n_pb - s.b.eback) + s.b.n_pb := by omega
    have hat : s.b.eback + (s.b.gptr - s.b.n_pb - s.b.eback) = s.b.gptr - s.b.n_pb := by omega
    have hkept : s.m.mem.block (s.b.gptr - s.b.n_pb) s.b.n_pb <:+ s.m.received := by
      have hwindow := h.window
      rw [hlen, Memory.block_add, hat] at hwindow
      exact (List.suffix_append _ _).trans hwindow
    obtain ⟨older, holder⟩ := hkept
    have hwindow := window_eq (s := s.refill bytes) (h.placed.refilled hbytes)
    have hhistory : (s.refill bytes).history = s.m.mem.block (s.b.gptr - s.b.n_pb) s.b.n_pb := by
      have hback : s.b.buffer + s.b.sizePb - (s.b.buffer + s.b.sizePb - s.b.n_pb) = s.b.n_pb := by
        omega
      simp only [history, GetState.refill, GetBuffer.refilled, GetBuffer.setg, hback]
      exact s.b.block_filled_history s.m bytes
    rw [hwindow, hhistory, unread_refill]
    exact ⟨older, by rw [← List.append_assoc, holder]; rfl⟩
  · simp only [GetState.refill, GetBuffer.refilled, GetBuffer.setg, GetBuffer.filled,
      List.length_append]
    omega

theorem history_fail_iff (h : s.b.Placed buffer size sizePb) (hempty : ¬ s.b.gptr < s.b.egptr) :
    s.fail.history = s.history ↔ s.Harmless := by
  have hbuffer := h.buffer_eq
  have hpb := h.sizePb_eq
  have hge := h.ge
  have heback := h.eback
  have hgptr := h.gptr
  have hegptr := h.egptr
  have hbase := h.base
  have hn : s.b.n_pb = min (s.b.gptr - s.b.eback) s.b.sizePb := rfl
  have hcell : ∀ i, s.b.eback ≤ i → i < s.b.buffer + s.b.sizePb → s.b.moved s.m.mem i =
      s.m.mem (i + (s.b.gptr - (s.b.buffer + s.b.sizePb))) := by
    intro i hi hlt
    have hmoved := s.b.moved_apply s.m.mem (i := i - (s.b.buffer + s.b.sizePb - s.b.n_pb))
      (by omega)
    have hdst : s.b.buffer + s.b.sizePb - s.b.n_pb +
        (i - (s.b.buffer + s.b.sizePb - s.b.n_pb)) = i := by omega
    have hsrc : s.b.gptr - s.b.n_pb + (i - (s.b.buffer + s.b.sizePb - s.b.n_pb)) =
        i + (s.b.gptr - (s.b.buffer + s.b.sizePb)) := by omega
    rwa [hdst, hsrc] at hmoved
  change (s.b.moved s.m.mem).block s.b.eback (s.b.gptr - s.b.eback) =
    s.m.mem.block s.b.eback (s.b.gptr - s.b.eback) ↔ _
  rw [Memory.block_inj]
  constructor
  · intro hsame i hi hlt
    have hat : s.b.eback + (i - s.b.eback) = i := by omega
    have hi' := hsame (i - s.b.eback) (by omega)
    rw [hat, hcell i hi hlt] at hi'
    exact hi'.symm
  · intro hharmless i hi
    rcases Nat.lt_or_ge (s.b.eback + i) (s.b.buffer + s.b.sizePb) with hlt | hge'
    · rw [hcell _ (Nat.le_add_right _ _) hlt]
      exact (hharmless _ (Nat.le_add_right _ _) hlt).symm
    · exact s.b.moved_of_ge s.m.mem hge'

theorem harmless_of_no_history (h : s.b.buffer + s.b.sizePb ≤ s.b.eback) : s.Harmless := by
  intro i hge hlt
  omega

theorem Recent.fail (h : s.Recent buffer size sizePb) (hempty : ¬ s.b.gptr < s.b.egptr)
    (hharmless : s.Harmless) : s.fail.Recent buffer size sizePb where
  placed := h.placed
  window := by
    have hhistory := (history_fail_iff h.placed hempty).2 hharmless
    have hwindow := h.window
    rw [window_eq h.placed, unread_eq_nil hempty] at hwindow
    rw [window_eq (s := s.fail) h.placed, hhistory, unread_eq_nil (s := s.fail) hempty]
    exact hwindow
  pos := h.pos

theorem call_sungetc (h : s.b.eback < s.b.gptr) :
    s.call .sungetc = (some (s.m.mem (s.b.gptr - 1)), s.b.gbump (-1), s.m) := if_pos h

theorem call_sungetc_none (h : ¬ s.b.eback < s.b.gptr) : s.call .sungetc = (none, s.b, s.m) :=
  if_neg h

theorem exec_sungetc (h : s.b.eback < s.b.gptr) :
    s.exec .sungetc = { s with b := s.b.gbump (-1), pos := s.pos - 1 } := by
  simp only [exec, call_sungetc h]
  rfl

theorem Recent.unget (h : s.Recent buffer size sizePb) (hlt : s.b.eback < s.b.gptr) :
    (s.exec .sungetc).Recent buffer size sizePb := by
  have hegptr := h.placed.egptr
  have hpos := h.pos
  have hlen := h.window.length_le
  rw [Memory.length_block] at hlen
  rw [exec_sungetc hlt]
  refine ⟨h.placed.ungbump hlt, h.window, ?_⟩
  simp only [GetBuffer.gbump]
  omega

theorem Recent.last (h : s.Recent buffer size sizePb) (hlt : s.b.eback < s.b.gptr) :
    1 ≤ s.pos ∧ s.m.received[s.pos - 1]? = some (s.m.mem (s.b.gptr - 1)) := by
  obtain ⟨older, hreceived, hpos⟩ := h.split
  have hlen : s.history.length = s.b.gptr - s.b.eback := Memory.length_block _ _ _
  rw [List.length_append, hlen] at hpos
  refine ⟨by omega, ?_⟩
  have hindex : s.pos - 1 - older.length = s.b.gptr - s.b.eback - 1 := by omega
  have hat : s.b.eback + (s.b.gptr - s.b.eback - 1) = s.b.gptr - 1 := by omega
  rw [hreceived, List.getElem?_append_left (by rw [List.length_append, hlen]; omega),
    List.getElem?_append_right (by omega), hindex, history, Memory.getElem?_block,
    if_pos (by omega), hat]

theorem Recent.exec (h : s.Recent buffer size sizePb) (hsize : 1 ≤ size)
    (hop : s.FailsHarmlessly op) : (s.exec op).Recent buffer size sizePb := by
  by_cases hun : op = .sungetc
  · subst hun
    by_cases hlt : s.b.eback < s.b.gptr
    · exact h.unget hlt
    · have hsame : s.exec .sungetc = s := by
        simp only [GetState.exec, call_sungetc_none hlt]
        rfl
      rw [hsame]
      exact h
  · by_cases hlt : s.b.gptr < s.b.egptr
    · exact h.take hun hlt
    · by_cases hfails : (s.m.script 0).Fails
      · rw [exec_of_fails hun hlt hfails]
        exact h.fail hlt (hop hun hlt hfails)
      · obtain ⟨bytes, hlen, hlt', hcall⟩ := call_of_data h.placed hsize hun hlt hfails
        rw [exec_congr (t := s.refill bytes) hcall rfl rfl]
        exact (h.refill hlt hlen).take hun hlt'

/-! ### What a step keeps -/

theorem Recent.available (h : s.Recent buffer size sizePb) (hsize : 1 ≤ size)
    (hop : op ≠ .sungetc) (hempty : ¬ s.b.gptr < s.b.egptr) (hsome : (s.call op).1 ≠ none) :
    min sizePb (s.b.gptr - s.b.eback) ≤ (s.exec op).b.gptr - (s.exec op).b.eback := by
  by_cases hfails : (s.m.script 0).Fails
  · rw [call_of_fails hop hempty hfails] at hsome
    exact absurd rfl hsome
  · obtain ⟨bytes, -, hlt, hcall⟩ := call_of_data h.placed hsize hop hempty hfails
    have hn : s.b.n_pb = min (s.b.gptr - s.b.eback) s.b.sizePb := rfl
    have hpb := h.placed.sizePb_eq
    rw [exec_congr (t := s.refill bytes) hcall rfl rfl, exec_of_lt hop hlt]
    simp only [GetState.refill, GetBuffer.refilled, GetBuffer.setg, GetBuffer.gbump]
    omega

theorem Recent.keeps_iff (h : s.Recent buffer size sizePb) (hsize : 1 ≤ size) :
    s.KeepsHistory sizePb op ↔ s.FailsHarmlessly op := by
  constructor
  · intro hkeeps hop hempty hfails
    have hfailed := (hkeeps.failed hop (by rw [call_of_fails hop hempty hfails])).2.2
    rw [exec_of_fails hop hempty hfails] at hfailed
    exact (history_fail_iff h.placed hempty).1 hfailed
  · intro hop
    refine ⟨(h.exec hsize hop).trueHistory, ?_, ?_, ?_⟩
    · intro hun hempty hsome
      exact h.available hsize hun hempty hsome
    · intro hun heof
      obtain ⟨hempty, hfails⟩ := call_eof h.placed hsize hun heof
      rw [exec_of_fails hun hempty hfails]
      exact ⟨rfl, rfl, (history_fail_iff h.placed hempty).2 (hop hun hempty hfails)⟩
    · rintro rfl c hc
      have hlt : s.b.eback < s.b.gptr := by
        by_contra hnot
        rw [call_sungetc_none hnot] at hc
        cases hc
      rw [call_sungetc hlt] at hc
      cases hc
      obtain ⟨hpos, hlast⟩ := h.last hlt
      refine ⟨hpos, hlast, ?_⟩
      have hegptr := h.placed.egptr
      have hback : ((s.b.gptr : Int) + -1).toNat = s.b.gptr - 1 := by omega
      have hroom : (s.exec .sungetc).b.gptr < (s.exec .sungetc).b.egptr := by
        rw [exec_sungetc hlt]
        simp only [GetBuffer.gbump]
        omega
      rw [call_of_lt (by simp) hroom, exec_sungetc hlt]
      simp only [GetBuffer.gbump, hback]

/-- The putback area holds true history, survives refills and failing reads, and gives back what was
read, exactly along the runs in which every read that fails is harmless. -/
theorem keepsHistory_iff (hsize : 1 ≤ size) (buffer sizePb : Nat) (mem : Memory α)
    (script : Nat → ReadOutcome α) (ops : List GetOp) :
    (start buffer size sizePb mem script).TrueHistory ∧
      Along exec (KeepsHistory sizePb) (start buffer size sizePb mem script) ops ↔
      Along exec FailsHarmlessly (start buffer size sizePb mem script) ops := by
  have hstart := recent_start buffer size sizePb mem script
  rw [and_iff_right hstart.trueHistory]
  refine along_iff (I := Recent buffer size sizePb) ?_ ?_ hstart
  · intro s op hs
    exact hs.keeps_iff hsize
  · intro s op hs hop
    exact hs.exec hsize hop

def endsAfter (c : Char) (k : Nat) : ReadOutcome Char := if k = 0 then .data c [] else .error

/-- The read after the first character fails. Then the character is put back and read again, and a
read fails once more. -/
theorem keepsHistory_endsAfter :
    Along exec (KeepsHistory 4) (start 16 8 4 (fun _ => 'x') (endsAfter 'a'))
      [.sbumpc, .sgetc, .sungetc, .sbumpc, .sgetc] := by
  apply ((keepsHistory_iff (by decide : 1 ≤ 8) 16 4 (fun _ => 'x') (endsAfter 'a')
    [.sbumpc, .sgetc, .sungetc, .sbumpc, .sgetc]).2 _).2
  refine ⟨?_, ?_, ?_, ?_, ?_, trivial⟩
  · intro _ _ hfails
    exact hfails.elim
  · intro _ _ _
    exact harmless_of_no_history (by decide)
  · intro hop
    exact absurd rfl hop
  · intro _ hempty
    exact absurd (by decide) hempty
  · intro _ _ _
    exact harmless_of_no_history (by decide)

/-- A read of three characters, one of a single character and one that fails: the history of the four
characters then ends in the last one twice. -/
def damaged (ops : List GetOp) : GetState Char :=
  ops.foldl exec (start 16 8 4 (fun _ => 'x') fun k =>
    if k = 0 then .data 'a' ['b', 'c'] else if k = 1 then .data 'd' [] else .error)

theorem damaged_history :
    (damaged [.sbumpc, .sbumpc, .sbumpc, .sbumpc, .sgetc]).m.received = ['a', 'b', 'c', 'd'] ∧
    (damaged [.sbumpc, .sbumpc, .sbumpc, .sbumpc, .sgetc]).pos = 4 ∧
    (damaged [.sbumpc, .sbumpc, .sbumpc, .sbumpc, .sgetc]).history = ['b', 'c', 'd', 'd'] ∧
    ¬ Along exec (KeepsHistory 4) (damaged []) [.sbumpc, .sbumpc, .sbumpc, .sbumpc, .sgetc] := by
  refine ⟨by decide +kernel, by decide +kernel, by decide +kernel, ?_⟩
  rintro ⟨-, -, -, -, hlast, -⟩
  have hfalse : ¬ (damaged [.sbumpc, .sbumpc, .sbumpc, .sbumpc, .sgetc]).TrueHistory := by
    decide +kernel
  exact hfalse hlast.history

end GetState

end Nanonet
