import Nanonet.Net.GetArea

/-!
# The input is delivered once and in order

What was read with `sbumpc`, followed by what is unread in the get area, is what the source
delivered. A refill happens only where nothing is unread, so it may move the history and fail without
touching this; a read that succeeds adds its bytes to both sides.
-/

namespace Nanonet

variable {α : Type*} {b : GetBuffer} {m : Source α} {s : GetState α} {op : GetOp}
  {buffer size sizePb : Nat}

/-- How many characters the operation takes. -/
def GetOp.taken : GetOp → Nat
  | sbumpc => 1
  | sgetc | sungetc => 0

namespace GetState

/-! ### One reading operation -/

theorem gbump_zero (b : GetBuffer) : b.gbump 0 = b := by
  ext <;> simp [GetBuffer.gbump]

theorem call_of_lt (hop : op ≠ .sungetc) (h : s.b.gptr < s.b.egptr) :
    s.call op = (some (s.m.mem s.b.gptr), s.b.gbump op.taken, s.m) := by
  cases op with
  | sgetc =>
    rw [call, GetBuffer.sgetc, if_pos h, GetOp.taken, Int.ofNat_zero, gbump_zero]
  | sbumpc => exact if_pos h
  | sungetc => exact absurd rfl hop

theorem call_of_fails (hop : op ≠ .sungetc) (h : ¬ s.b.gptr < s.b.egptr)
    (hfails : (s.m.script 0).Fails) : s.call op = (none, s.b, s.b.failed s.m) := by
  have hunderflow := GetBuffer.underflow_of_fails h hfails
  cases op with
  | sgetc => rw [call, GetBuffer.sgetc, if_neg h, hunderflow]
  | sbumpc =>
    rw [call, GetBuffer.sbumpc, if_neg h]
    simp only [GetBuffer.uflow, hunderflow]
  | sungetc => exact absurd rfl hop

/-- The state after a read that failed. -/
def fail (s : GetState α) : GetState α := { s with m := s.b.failed s.m }

/-- The state after a read that delivered `bytes`. -/
def refill (s : GetState α) (bytes : List α) : GetState α :=
  { s with b := s.b.refilled bytes.length, m := s.b.filled s.m bytes }

theorem refill_lt (s : GetState α) {bytes : List α} (hne : bytes ≠ []) :
    (s.refill bytes).b.gptr < (s.refill bytes).b.egptr := by
  have hpos := List.length_pos_iff.2 hne
  simp only [refill, GetBuffer.refilled, GetBuffer.setg]
  omega

theorem data_of_not_fails {o : ReadOutcome α} (h : ¬ o.Fails) :
    ∃ first more, o = .data first more := by
  cases o with
  | data first more => exact ⟨first, more, rfl⟩
  | eof => exact absurd trivial h
  | error => exact absurd trivial h

/-- Where a read succeeds, the operation does what it does on the refilled buffer. -/
theorem call_of_data (hplaced : s.b.Placed buffer size sizePb) (hsize : 1 ≤ size)
    (hop : op ≠ .sungetc) (h : ¬ s.b.gptr < s.b.egptr) (hdata : ¬ (s.m.script 0).Fails) :
    ∃ bytes, bytes.length ≤ size ∧ (s.refill bytes).b.gptr < (s.refill bytes).b.egptr ∧
      s.call op = (s.refill bytes).call op := by
  obtain ⟨first, more, hscript⟩ := data_of_not_fails hdata
  have hroom : s.b.bufferSize - s.b.sizePb = size := by
    rw [hplaced.bufferSize_eq, hplaced.sizePb_eq, Nat.add_sub_cancel]
  obtain ⟨rest, hrest, hunderflow⟩ := GetBuffer.underflow_of_data h (by omega) hscript
  have hlen : (first :: rest).length ≤ size := by
    rw [hrest, hroom]
    exact List.length_take_le _ _
  have hlt := refill_lt s (List.cons_ne_nil first rest)
  have hfirst : (s.refill (first :: rest)).m.mem (s.refill (first :: rest)).b.gptr = first :=
    Memory.fill_add (s.b.moved s.m.mem) (s.b.buffer + s.b.sizePb) 0 (first :: rest)
  refine ⟨first :: rest, hlen, hlt, ?_⟩
  rw [call_of_lt hop hlt, hfirst]
  cases op with
  | sgetc =>
    rw [call, GetBuffer.sgetc, if_neg h, hunderflow, GetOp.taken, Int.ofNat_zero, gbump_zero]
    rfl
  | sbumpc =>
    rw [call, GetBuffer.sbumpc, if_neg h]
    simp only [GetBuffer.uflow, hunderflow]
    exact congrArg (fun c => (some c, _)) hfirst
  | sungetc => exact absurd rfl hop

/-- A reading operation returns a character, or it made a read that failed with nothing unread. -/
theorem call_eof (hplaced : s.b.Placed buffer size sizePb) (hsize : 1 ≤ size) (hop : op ≠ .sungetc)
    (heof : (s.call op).1 = none) : ¬ s.b.gptr < s.b.egptr ∧ (s.m.script 0).Fails := by
  by_cases hlt : s.b.gptr < s.b.egptr
  · rw [call_of_lt hop hlt] at heof
    cases heof
  · refine ⟨hlt, ?_⟩
    by_contra hdata
    obtain ⟨bytes, -, hlt', hcall⟩ := call_of_data hplaced hsize hop hlt hdata
    rw [hcall, call_of_lt hop hlt'] at heof
    cases heof

theorem exec_congr {t : GetState α} (hcall : s.call op = t.call op)
    (hconsumed : s.consumed = t.consumed) (hpos : s.pos = t.pos) : s.exec op = t.exec op := by
  cases op <;> simp only [exec, hcall, hconsumed, hpos]

theorem exec_of_lt (hop : op ≠ .sungetc) (h : s.b.gptr < s.b.egptr) :
    s.exec op = { s with
      b := s.b.gbump op.taken
      consumed := s.consumed ++ [s.m.mem s.b.gptr].take op.taken
      pos := s.pos + op.taken } := by
  have hcall := call_of_lt hop h
  cases op with
  | sgetc =>
    simp only [exec, hcall, GetOp.taken, List.take_zero, List.append_nil]
    rfl
  | sbumpc =>
    simp only [exec, hcall]
    rfl
  | sungetc => exact absurd rfl hop

theorem exec_of_fails (hop : op ≠ .sungetc) (h : ¬ s.b.gptr < s.b.egptr)
    (hfails : (s.m.script 0).Fails) : s.exec op = s.fail := by
  have hcall := call_of_fails hop h hfails
  cases op with
  | sgetc =>
    simp only [exec, hcall]
    rfl
  | sbumpc =>
    simp only [exec, hcall, Option.toList_none, List.append_nil]
    rfl
  | sungetc => exact absurd rfl hop

end GetState

theorem GetBuffer.Placed.advance (h : b.Placed buffer size sizePb) (hlt : b.gptr < b.egptr)
    (op : GetOp) : (b.gbump op.taken).Placed buffer size sizePb := by
  cases op with
  | sbumpc => exact h.gbump hlt
  | sgetc => rwa [GetOp.taken, Int.ofNat_zero, GetState.gbump_zero]
  | sungetc => rwa [GetOp.taken, Int.ofNat_zero, GetState.gbump_zero]

theorem take_append_unread (mem : Memory α) (h : b.gptr < b.egptr) (op : GetOp) :
    [mem b.gptr].take op.taken ++
        mem.block (b.gbump op.taken).gptr (b.egptr - (b.gbump op.taken).gptr) =
      mem.block b.gptr (b.egptr - b.gptr) := by
  have hsplit : b.egptr - b.gptr = (b.egptr - (b.gptr + 1)) + 1 := by omega
  cases op with
  | sbumpc =>
    rw [hsplit, Memory.block_succ]
    rfl
  | sgetc => rfl
  | sungetc => rfl

namespace GetState

/-! ### The invariant -/

/-- What was read and what is unread is what was delivered; the source was asked for something, to be
put in the buffer, and nothing outside the buffer changed. -/
structure Faithful (buffer size sizePb : Nat) (mem : Memory α) (s : GetState α) : Prop where
  placed : s.b.Placed buffer size sizePb
  delivered : s.consumed ++ s.unread = s.m.received
  requests : ∀ r ∈ s.m.requests, 1 ≤ r.2 ∧ buffer ≤ r.1 ∧ r.1 + r.2 ≤ buffer + (size + sizePb)
  frame : ∀ a, a < buffer ∨ buffer + (size + sizePb) ≤ a → s.m.mem a = mem a

variable {mem : Memory α}

theorem faithful_start (buffer size sizePb : Nat) (mem : Memory α)
    (script : Nat → ReadOutcome α) :
    (start buffer size sizePb mem script).Faithful buffer size sizePb mem where
  placed := GetBuffer.placed_construct _ _ _
  delivered := by simp [start, unread, GetBuffer.construct, GetBuffer.setg]
  requests := by simp [start]
  frame _ _ := rfl

theorem Faithful.request (h : s.Faithful buffer size sizePb mem) (hsize : 1 ≤ size) :
    ∀ r ∈ (s.b.failed s.m).requests,
      1 ≤ r.2 ∧ buffer ≤ r.1 ∧ r.1 + r.2 ≤ buffer + (size + sizePb) := by
  have hbuffer := h.placed.buffer_eq
  have hpb := h.placed.sizePb_eq
  have hall := h.placed.bufferSize_eq
  intro r hr
  rcases List.mem_append.1 hr with hold | hnew
  · exact h.requests r hold
  · rw [List.mem_singleton.1 hnew]
    dsimp only
    omega

theorem moved_frame (h : b.Placed buffer size sizePb) (mem : Memory α) {a : Nat}
    (ha : a < buffer ∨ buffer + (size + sizePb) ≤ a) : b.moved mem a = mem a := by
  have hle := b.n_pb_le.2
  have hbuffer := h.buffer_eq
  have hpb := h.sizePb_eq
  rcases ha with ha | ha
  · exact b.moved_of_lt mem (by omega)
  · exact b.moved_of_ge mem (by omega)

theorem unread_eq_nil (h : ¬ s.b.gptr < s.b.egptr) : s.unread = [] := by
  have hzero : s.b.egptr - s.b.gptr = 0 := by omega
  rw [unread, hzero, Memory.block_zero]

theorem unread_refill (s : GetState α) (bytes : List α) : (s.refill bytes).unread = bytes := by
  simp only [unread, refill, GetBuffer.refilled, GetBuffer.setg, Nat.add_sub_cancel_left]
  exact s.b.block_filled_bytes s.m bytes

theorem Faithful.fail (h : s.Faithful buffer size sizePb mem) (hsize : 1 ≤ size)
    (hempty : ¬ s.b.gptr < s.b.egptr) : s.fail.Faithful buffer size sizePb mem where
  placed := h.placed
  delivered := by
    have hdelivered := h.delivered
    rw [unread_eq_nil hempty] at hdelivered
    rw [unread_eq_nil (s := s.fail) hempty]
    exact hdelivered
  requests := h.request hsize
  frame a ha := (moved_frame h.placed s.m.mem ha).trans (h.frame a ha)

theorem Faithful.refill (h : s.Faithful buffer size sizePb mem) (hsize : 1 ≤ size)
    (hempty : ¬ s.b.gptr < s.b.egptr) {bytes : List α} (hbytes : bytes.length ≤ size) :
    (s.refill bytes).Faithful buffer size sizePb mem where
  placed := h.placed.refilled hbytes
  delivered := by
    have hdelivered := h.delivered
    rw [unread_eq_nil hempty, List.append_nil] at hdelivered
    rw [unread_refill]
    exact congrArg (· ++ bytes) hdelivered
  requests := h.request hsize
  frame a ha := by
    have hbuffer := h.placed.buffer_eq
    have hpb := h.placed.sizePb_eq
    rw [← h.frame a ha, ← moved_frame h.placed s.m.mem ha]
    rcases ha with ha | ha
    · exact Memory.fill_of_lt (by omega)
    · exact Memory.fill_of_ge (by omega)

theorem Faithful.take (h : s.Faithful buffer size sizePb mem) (hop : op ≠ .sungetc)
    (hlt : s.b.gptr < s.b.egptr) : (s.exec op).Faithful buffer size sizePb mem := by
  rw [exec_of_lt hop hlt]
  refine ⟨h.placed.advance hlt op, ?_, h.requests, h.frame⟩
  have htake := take_append_unread s.m.mem hlt op
  have hdelivered := h.delivered
  rw [unread, ← htake, ← List.append_assoc] at hdelivered
  exact hdelivered

theorem Faithful.exec (h : s.Faithful buffer size sizePb mem) (hsize : 1 ≤ size)
    (hop : op ≠ .sungetc) : (s.exec op).Faithful buffer size sizePb mem := by
  by_cases hlt : s.b.gptr < s.b.egptr
  · exact h.take hop hlt
  · by_cases hfails : (s.m.script 0).Fails
    · rw [exec_of_fails hop hlt hfails]
      exact h.fail hsize hlt
    · obtain ⟨bytes, hlen, hlt', hcall⟩ := call_of_data h.placed hsize hop hlt hfails
      rw [exec_congr (t := s.refill bytes) hcall rfl rfl]
      exact (h.refill hsize hlt hlen).take hop hlt'

theorem Faithful.run (h : s.Faithful buffer size sizePb mem) (hsize : 1 ≤ size)
    {ops : List GetOp} (hops : ∀ op ∈ ops, op ≠ .sungetc) :
    (ops.foldl GetState.exec s).Faithful buffer size sizePb mem := by
  induction ops generalizing s with
  | nil => exact h
  | cons op ops ih =>
    exact ih (h.exec hsize (hops op List.mem_cons_self))
      fun op' hop' => hops op' (List.mem_cons_of_mem _ hop')

/-! ### What the operations return -/

theorem head_unread (hlt : s.b.gptr < s.b.egptr) :
    s.unread.head? = some (s.m.mem s.b.gptr) := by
  have hsplit : s.b.egptr - s.b.gptr = (s.b.egptr - (s.b.gptr + 1)) + 1 := by omega
  rw [unread, hsplit, Memory.block_succ, List.head?_cons]

theorem Faithful.sgetc (h : s.Faithful buffer size sizePb mem) (hsize : 1 ≤ size) :
    (s.call .sgetc).1 = (s.exec .sgetc).unread.head? := by
  have hop : GetOp.sgetc ≠ .sungetc := by simp
  have hlook : ∀ t : GetState α, t.b.gptr < t.b.egptr →
      (t.call .sgetc).1 = (t.exec .sgetc).unread.head? := by
    intro t hlt
    rw [call_of_lt hop hlt, exec_of_lt hop hlt]
    simp only [GetOp.taken, Int.ofNat_zero, gbump_zero]
    exact (head_unread hlt).symm
  by_cases hlt : s.b.gptr < s.b.egptr
  · exact hlook s hlt
  · by_cases hfails : (s.m.script 0).Fails
    · rw [call_of_fails hop hlt hfails, exec_of_fails hop hlt hfails, unread_eq_nil (s := s.fail) hlt]
      rfl
    · obtain ⟨bytes, -, hlt', hcall⟩ := call_of_data h.placed hsize hop hlt hfails
      rw [hcall, exec_congr (t := s.refill bytes) hcall rfl rfl]
      exact hlook _ hlt'

/-- What `sbumpc` returned and what is unread is what the source delivered, however its reads were
sized and failed; `sgetc` takes nothing; the end is reported only by a read that fails with nothing
unread; and the source is asked for something, to be put in the buffer, where the pointers stay. -/
theorem input_once (hsize : 1 ≤ size) (buffer sizePb : Nat) (mem : Memory α)
    (script : Nat → ReadOutcome α) {ops : List GetOp} (hops : ∀ op ∈ ops, op ≠ .sungetc) :
    let s := ops.foldl exec (start buffer size sizePb mem script)
    s.consumed ++ s.unread = s.m.received ∧
    ((s.exec .sgetc).consumed = s.consumed ∧
      (s.call .sgetc).1 = (s.exec .sgetc).unread.head?) ∧
    (∀ op, op ≠ .sungetc → (s.call op).1 = none → s.unread = [] ∧ (s.m.script 0).Fails ∧
      ∃ r, (s.exec op).m.requests = s.m.requests ++ [r]) ∧
    (∀ r ∈ s.m.requests, 1 ≤ r.2 ∧ buffer ≤ r.1 ∧ r.1 + r.2 ≤ buffer + (size + sizePb)) ∧
    (∀ a, a < buffer ∨ buffer + (size + sizePb) ≤ a → s.m.mem a = mem a) ∧
    (buffer ≤ s.b.eback ∧ s.b.eback ≤ s.b.gptr ∧ s.b.gptr ≤ s.b.egptr ∧
      s.b.egptr ≤ buffer + (size + sizePb)) := by
  intro s
  have h : s.Faithful buffer size sizePb mem :=
    (faithful_start buffer size sizePb mem script).run hsize hops
  refine ⟨h.delivered, ⟨rfl, h.sgetc hsize⟩, ?_, h.requests, h.frame, h.placed.ge, h.placed.gptr,
    h.placed.egptr, h.placed.le⟩
  intro op hop heof
  obtain ⟨hlt, hfails⟩ := call_eof h.placed hsize hop heof
  refine ⟨unread_eq_nil hlt, hfails, ?_⟩
  rw [exec_of_fails hop hlt hfails]
  exact ⟨_, rfl⟩

/-- Two characters through a buffer of one, with a read that fails between them. -/
theorem input_once_aa :
    ([GetOp.sbumpc, .sgetc, .sbumpc].foldl exec (start 16 1 1 (fun _ => 'x')
      fun k => if k = 1 then .error else .data 'a' ['b'])).consumed ++
    ([GetOp.sbumpc, .sgetc, .sbumpc].foldl exec (start 16 1 1 (fun _ => 'x')
      fun k => if k = 1 then .error else .data 'a' ['b'])).unread = ['a', 'a'] := by
  have hops : ∀ op ∈ [GetOp.sbumpc, .sgetc, .sbumpc], op ≠ .sungetc := by decide
  have hall := input_once (Nat.le_refl 1) 16 1 (fun _ => 'x')
    (fun k => if k = 1 then .error else .data 'a' ['b']) hops
  exact hall.1.trans (by decide +kernel)

end GetState

end Nanonet
