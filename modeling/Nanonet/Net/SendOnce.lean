import Nanonet.Net.Ostreambuf

/-!
# What a stream sends

As long as every `send()` takes all it is offered, what was accepted and what is pending are the
bytes written (`Whole`). The first one that does not makes the stream bad, with everything it was
offered still pending (`Stopped`); nothing is sent again until the destructor offers all of it once
more, the part that was taken included. So a stream sends no byte twice exactly where a partial
`send()` is followed by none that takes anything (`onstream_sends`).
-/

namespace Nanonet

variable {α : Type}

namespace Ostreambuf

/-- Every `send()` took all it was offered. -/
structure Whole (b : Ostreambuf α) (w : List α) : Prop where
  bytes : b.rw.accepted ++ b.pending = w
  full : ∀ x ∈ b.rw.sends, x.Full

/-- The last `send()` did not take all of the pending bytes, the first one of which it was. -/
def Stopped (b : Ostreambuf α) (w : List α) : Prop :=
  ∃ flushed more earlier k, k < b.pending.length ∧ w = flushed ++ (b.pending ++ more) ∧
    b.rw.accepted = flushed ++ b.pending.take k ∧
    b.rw.sends = earlier ++ [⟨b.pending.length, k⟩] ∧ ∀ x ∈ earlier, x.Full

theorem Stopped.append {b : Ostreambuf α} {w : List α} (h : b.Stopped w) (cs : List α) :
    b.Stopped (w ++ cs) := by
  obtain ⟨flushed, more, earlier, k, hk, rfl, hrest⟩ := h
  exact ⟨flushed, more ++ cs, earlier, k, hk, by simp, hrest⟩

end Ostreambuf

theorem sendRepeat_le (n : Nat) (kernel : List SendResult) :
    (sendRepeat n kernel).1 = -1 ∨ ∃ k ≤ n, (sendRepeat n kernel).1 = (k : Int) := by
  induction kernel with
  | nil => exact .inl rfl
  | cons r kernel ih =>
    cases r with
    | eintr => exact ih
    | error => exact .inl rfl
    | sent count => exact .inr ⟨min count n, Nat.min_le_right _ _, by rw [sendRepeat]; omega⟩

theorem Socket.write_spec (s : Socket α) {buf : List α} (hbuf : buf ≠ []) :
    ∃ k kernel, k ≤ buf.length ∧
      s.write buf = (if k = buf.length then (buf.length : Int) else -1,
        ⟨kernel, s.accepted ++ buf.take k, s.sends ++ [⟨buf.length, k⟩]⟩) := by
  have hpos := List.length_pos_iff.2 hbuf
  obtain hret | ⟨k, hk, hret⟩ := sendRepeat_le buf.length s.kernel
  · refine ⟨0, (sendRepeat buf.length s.kernel).2, Nat.zero_le _, ?_⟩
    rw [if_neg (by omega)]
    simp [Socket.write, hret]
  · refine ⟨k, (sendRepeat buf.length s.kernel).2, hk, ?_⟩
    simp only [Socket.write, hret, Int.toNat_natCast]
    by_cases hfull : k = buf.length
    · rw [if_neg (by omega), if_pos hfull, hfull]
    · rw [if_pos (by omega), if_neg hfull]

theorem Ostreambuf.flush_spec (b : Ostreambuf α) (hpending : b.pending ≠ []) :
    ∃ k kernel, k ≤ b.pending.length ∧
      b.flush = (decide (k = b.pending.length),
        { b with
          pending := if k = b.pending.length then [] else b.pending
          rw := ⟨kernel, b.rw.accepted ++ b.pending.take k,
            b.rw.sends ++ [⟨b.pending.length, k⟩]⟩ }) := by
  obtain ⟨k, kernel, hk, hwrite⟩ := b.rw.write_spec hpending
  refine ⟨k, kernel, hk, ?_⟩
  have hpos := List.length_pos_iff.2 hpending
  rw [flush, if_neg (by omega), hwrite]
  by_cases hfull : k = b.pending.length
  · simp only [if_pos hfull]
    rw [if_neg (by omega), hfull]
    simp
  · simp [hfull]

namespace Ostreambuf

variable {b : Ostreambuf α} {w : List α}

theorem Whole.flush (h : b.Whole w) :
    (b.flush.1 = true ∧ b.flush.2.Whole w ∧ b.flush.2.pending = []) ∨
      (b.flush.1 = false ∧ b.flush.2.Stopped w) := by
  by_cases hpending : b.pending = []
  · left
    have hflush : b.flush = (true, b) := by simp [Ostreambuf.flush, hpending]
    rw [hflush]
    exact ⟨rfl, h, hpending⟩
  · obtain ⟨k, kernel, hk, hflush⟩ := b.flush_spec hpending
    rw [hflush]
    by_cases hfull : k = b.pending.length
    · refine .inl ⟨by simp [hfull], ⟨?_, ?_⟩, by simp [hfull]⟩
      · simp [hfull, h.bytes]
      · intro x hx
        rcases List.mem_append.1 hx with hx | hx
        · exact h.full x hx
        · obtain rfl := List.mem_singleton.1 hx
          exact hfull
    · refine .inr ⟨by simp [hfull], b.rw.accepted, [], b.rw.sends, k, ?_⟩
      simp only [if_neg hfull, List.append_nil, true_and]
      exact ⟨Nat.lt_of_le_of_ne hk hfull, h.bytes.symm, h.full⟩

theorem Whole.sputc (h : b.Whole w) (c : α) :
    ((b.sputc c).1 = true ∧ (b.sputc c).2.Whole (w ++ [c])) ∨
      ((b.sputc c).1 = false ∧ (b.sputc c).2.Stopped (w ++ [c])) := by
  have hput : Whole { b with pending := b.pending ++ [c] } (w ++ [c]) :=
    ⟨by rw [← h.bytes, List.append_assoc], h.full⟩
  unfold Ostreambuf.sputc
  split_ifs
  · exact .inl ⟨rfl, hput⟩
  · obtain ⟨hok, hwhole, -⟩ | hstopped := hput.flush
    · exact .inl ⟨hok, hwhole⟩
    · exact .inr hstopped

theorem Whole.xsputn (h : b.Whole w) (cs : List α) :
    ((b.xsputn cs).1 = cs.length ∧ (b.xsputn cs).2.Whole (w ++ cs)) ∨
      ((b.xsputn cs).1 ≠ cs.length ∧ (b.xsputn cs).2.Stopped (w ++ cs)) := by
  induction cs generalizing b w with
  | nil => exact .inl ⟨rfl, by simpa [Ostreambuf.xsputn] using h⟩
  | cons c cs ih =>
    rw [List.append_cons]
    rcases hput : b.sputc c with ⟨ok, b'⟩
    have hspec := h.sputc c
    rw [hput] at hspec
    simp only [Ostreambuf.xsputn, hput]
    obtain ⟨rfl, hwhole⟩ | ⟨rfl, hstopped⟩ := hspec
    · obtain ⟨hcount, hrest⟩ | ⟨hcount, hrest⟩ := ih hwhole
      · exact .inl ⟨congrArg (· + 1) hcount, hrest⟩
      · exact .inr ⟨fun hlen => hcount (Nat.succ.inj hlen), hrest⟩
    · exact .inr ⟨by simp, hstopped.append cs⟩

end Ostreambuf

/-! ### The put area -/

namespace Ostreambuf

def Fits (b : Ostreambuf α) : Prop := b.pending.length < b.size

theorem flush_fits (b : Ostreambuf α) :
    b.flush.2.size = b.size ∧ b.flush.2.pending.length ≤ b.pending.length ∧
      (b.flush.1 = true → b.flush.2.pending = []) := by
  by_cases hpending : b.pending = []
  · simp [flush, hpending]
  · obtain ⟨k, kernel, -, hflush⟩ := b.flush_spec hpending
    rw [hflush]
    by_cases hfull : k = b.pending.length <;> simp [hfull]

theorem Fits.sputc {b : Ostreambuf α} (h : b.Fits) (c : α) :
    (b.sputc c).2.size = b.size ∧ (b.sputc c).2.pending.length ≤ b.size ∧
      ((b.sputc c).1 = true → (b.sputc c).2.Fits) := by
  unfold Fits at h
  unfold Ostreambuf.sputc
  split_ifs with hroom
  · simp only [List.length_append, List.length_singleton, Fits, true_and, forall_true_left]
    omega
  · obtain ⟨hsize, hlen, hempty⟩ := flush_fits { b with pending := b.pending ++ [c] }
    simp only [List.length_append, List.length_singleton] at hlen
    refine ⟨hsize, Nat.le_trans hlen h, fun hok => ?_⟩
    unfold Fits overflow
    rw [hempty hok, hsize]
    exact Nat.zero_lt_of_lt h

theorem Fits.xsputn {b : Ostreambuf α} (h : b.Fits) (cs : List α) :
    (b.xsputn cs).2.size = b.size ∧ (b.xsputn cs).2.pending.length ≤ b.size ∧
      ((b.xsputn cs).1 = cs.length → (b.xsputn cs).2.Fits) := by
  induction cs generalizing b with
  | nil => exact ⟨rfl, Nat.le_of_lt h, fun _ => h⟩
  | cons c cs ih =>
    obtain ⟨hsize, hlen, hfits⟩ := h.sputc c
    simp only [Ostreambuf.xsputn]
    rcases hput : b.sputc c with ⟨_ | _, b'⟩ <;> rw [hput] at hsize hlen hfits
    · exact ⟨hsize, hlen, fun hcount => by simp at hcount⟩
    · obtain ⟨hsize', hlen', hfits'⟩ := ih (hfits rfl)
      simp only at hsize
      exact ⟨hsize'.trans hsize, hsize ▸ hlen', fun hcount => hfits' (Nat.succ.inj hcount)⟩

end Ostreambuf

namespace Onstream

/-- The pending bytes are inside the buffer, and a good stream has room for one more. -/
structure Bounded (s : Onstream α) (size : Nat) : Prop where
  size_eq : s.buffer.size = size
  length_le : s.buffer.pending.length ≤ size
  fits : s.badbit = false → s.buffer.Fits

theorem Bounded.exec {s : Onstream α} {size : Nat} (h : s.Bounded size) (op : StreamOp α) :
    (s.exec op).Bounded size := by
  obtain ⟨rfl, hlen, hfits⟩ := h
  cases hbad : s.badbit with
  | true => cases op <;> simp only [Onstream.exec, hbad, if_true] <;> exact ⟨rfl, hlen, hfits⟩
  | false =>
    cases op with
    | write cs =>
      obtain ⟨hsize', hlen', hfits'⟩ := (hfits hbad).xsputn cs
      simp only [Onstream.exec, hbad, Bool.false_eq_true, if_false]
      exact ⟨hsize', hlen', fun hgood => hfits' (by simpa using hgood)⟩
    | flush =>
      obtain ⟨hsize', hlen', -⟩ := s.buffer.flush_fits
      simp only [Onstream.exec, hbad, Bool.false_eq_true, if_false, Ostreambuf.sync]
      refine ⟨hsize', Nat.le_trans hlen' hlen, fun _ => ?_⟩
      unfold Ostreambuf.Fits
      rw [hsize']
      exact Nat.lt_of_le_of_lt hlen' (hfits hbad)

/-- A stream never writes past the end of its buffer. -/
theorem run_bounded {size : Nat} (hsize : 1 ≤ size) (ops : List (StreamOp α))
    (kernel : List SendResult) : ((open_ size kernel).run ops).Bounded size := by
  have hrun : ∀ s : Onstream α, s.Bounded size → (s.run ops).Bounded size := by
    induction ops with
    | nil => exact fun s h => h
    | cons op ops ih => exact fun s h => ih (s.exec op) (h.exec op)
  exact hrun _ ⟨rfl, Nat.zero_le _, fun _ => hsize⟩

end Onstream

/-! ### Nothing is lost before the first short `send()` -/

namespace Onstream

/-- The stream is good with nothing lost, or bad since its last `send()`. -/
def Inv (s : Onstream α) (w : List α) : Prop :=
  s.badbit = false ∧ s.buffer.Whole w ∨ s.badbit = true ∧ s.buffer.Stopped w

theorem inv_open (size : Nat) (kernel : List SendResult) :
    Inv (open_ size kernel : Onstream α) [] :=
  .inl ⟨rfl, rfl, by simp [open_]⟩

theorem Inv.exec {s : Onstream α} {w : List α} (h : s.Inv w) (op : StreamOp α) :
    (s.exec op).Inv (w ++ written [op]) := by
  rcases h with ⟨hgood, hwhole⟩ | ⟨hbad, hstopped⟩
  · cases op with
    | write cs =>
      simp only [Onstream.exec, hgood, Bool.false_eq_true, if_false, written, List.flatMap_cons,
        List.flatMap_nil, List.append_nil]
      obtain ⟨hcount, h⟩ | ⟨hcount, h⟩ := hwhole.xsputn cs
      · exact .inl ⟨by simp [hcount], h⟩
      · exact .inr ⟨by simp [hcount], h⟩
    | flush =>
      simp only [Onstream.exec, hgood, Bool.false_eq_true, if_false, written, List.flatMap_cons,
        List.flatMap_nil, List.append_nil, Ostreambuf.sync]
      obtain ⟨hok, h, -⟩ | ⟨hok, h⟩ := hwhole.flush
      · exact .inl ⟨by simp [hok], h⟩
      · exact .inr ⟨by simp [hok], h⟩
  · cases op <;> simp only [Onstream.exec, hbad, if_true] <;>
      exact .inr ⟨hbad, hstopped.append _⟩

theorem written_cons (op : StreamOp α) (ops : List (StreamOp α)) :
    written (op :: ops) = written [op] ++ written ops := by
  simp [written]

theorem Inv.run {s : Onstream α} {w : List α} (h : s.Inv w) (ops : List (StreamOp α)) :
    (s.run ops).Inv (w ++ written ops) := by
  induction ops generalizing s w with
  | nil => simpa [Onstream.run, written] using h
  | cons op ops ih =>
    rw [written_cons, ← List.append_assoc]
    exact ih (h.exec op)

end Onstream

/-! ### Destruction -/

/-- After a `send()` that took a part of what it was offered, none takes anything; and the `send()`
of the destructor takes all it is offered, unless one before did not. `before` are those of the
operations, `all` those and the one of the destructor. -/
structure SafeSends (before all : List Send) : Prop where
  noResend : all.Pairwise fun x y => x.Partial → y.taken = 0
  lastFull : (∀ x ∈ before, x.Full) → ∀ x ∈ all, x.Full

/-- What was accepted is a prefix of what was written, and all of it unless a failure was
reported. -/
def InOrder (reported : Bool) (accepted written : List α) : Prop :=
  accepted <+: written ∧ (reported = false → accepted = written)

theorem not_partial_of_full {x : Send} (h : x.Full) : ¬ x.Partial :=
  fun hpartial => Nat.ne_of_lt hpartial.2 h

namespace Ostreambuf

theorem Whole.destruct {b : Ostreambuf α} {w : List α} (h : b.Whole w) :
    SafeSends b.rw.sends b.destruct.rw.sends ↔ InOrder false b.destruct.rw.accepted w := by
  unfold Ostreambuf.destruct Ostreambuf.sync
  obtain ⟨-, hwhole, hpending⟩ | ⟨-, flushed, more, earlier, k, hk, hw, haccepted, hsends, -⟩ :=
    h.flush
  · have haccepted := hwhole.bytes
    rw [hpending, List.append_nil] at haccepted
    refine ⟨fun _ => ⟨haccepted ▸ List.prefix_rfl, fun _ => haccepted⟩,
      fun _ => ⟨?_, fun _ => hwhole.full⟩⟩
    exact List.pairwise_of_forall_mem_list fun x hx _ _ hpartial =>
      absurd hpartial (not_partial_of_full (hwhole.full x hx))
  · constructor
    · rintro ⟨-, hlast⟩
      have hmem : (⟨b.flush.2.pending.length, k⟩ : Send) ∈ b.flush.2.rw.sends := by
        rw [hsends]
        simp
      exact absurd (hlast h.full _ hmem) (Nat.ne_of_lt hk)
    · rintro ⟨-, hall⟩
      have hlen := congrArg List.length (hall rfl)
      rw [haccepted, hw] at hlen
      simp only [List.length_append, List.length_take] at hlen
      omega

/-- The destructor of a stopped stream offers everything again: what it takes follows what was
accepted. -/
theorem Stopped.destruct {b : Ostreambuf α} {w : List α} (h : b.Stopped w) :
    (SafeSends b.rw.sends b.destruct.rw.sends → InOrder true b.destruct.rw.accepted w) ∧
      (w.Nodup → InOrder true b.destruct.rw.accepted w →
        SafeSends b.rw.sends b.destruct.rw.sends) := by
  obtain ⟨flushed, more, earlier, k, hk, rfl, haccepted, hsends, hfull⟩ := h
  have hpending : b.pending ≠ [] := List.length_pos_iff.1 (Nat.zero_lt_of_lt hk)
  obtain ⟨j, kernel, hj, hflush⟩ := b.flush_spec hpending
  have hnotFull : ¬ ∀ x ∈ b.rw.sends, x.Full := fun hall =>
    Nat.ne_of_lt hk (hall ⟨b.pending.length, k⟩ (by rw [hsends]; simp))
  have hsafe : SafeSends b.rw.sends b.destruct.rw.sends ↔ (0 < k → j = 0) := by
    have hall : b.destruct.rw.sends =
        earlier ++ [⟨b.pending.length, k⟩, ⟨b.pending.length, j⟩] := by
      simp [Ostreambuf.destruct, Ostreambuf.sync, hflush, hsends]
    have hearlier : ∀ x ∈ earlier, ∀ y : Send, x.Partial → y.taken = 0 := fun x hx _ hpartial =>
      absurd hpartial (not_partial_of_full (hfull x hx))
    constructor
    · rintro ⟨hresend, -⟩ hpos
      rw [hall, List.pairwise_append] at hresend
      exact List.rel_of_pairwise_cons hresend.2.1 List.mem_cons_self ⟨hpos, hk⟩
    · refine fun hkj => ⟨?_, fun hbefore => absurd hbefore hnotFull⟩
      rw [hall, List.pairwise_append]
      refine ⟨List.pairwise_of_forall_mem_list fun x hx y _ => hearlier x hx y, ?_,
        fun x hx y _ => hearlier x hx y⟩
      exact List.pairwise_pair.2 fun hpartial => hkj hpartial.1
  rw [hsafe]
  simp only [Ostreambuf.destruct, Ostreambuf.sync, hflush, haccepted, InOrder, Bool.true_eq_false,
    false_implies, and_true]
  rw [List.append_assoc, List.prefix_append_right_inj, List.nodup_append]
  constructor
  · intro hkj
    rcases Nat.eq_zero_or_pos k with rfl | hpos
    · simpa using (List.take_prefix j b.pending).trans (List.prefix_append _ _)
    · simpa [hkj hpos] using (List.take_prefix k b.pending).trans (List.prefix_append _ _)
  · rintro ⟨-, hnodup, -⟩ hprefix hpos
    -- the first pending byte would be accepted twice
    by_contra hj0
    obtain ⟨a, p, hp⟩ := List.exists_cons_of_ne_nil hpending
    have htwice := hnodup.sublist hprefix.sublist
    obtain ⟨k, rfl⟩ := Nat.exists_eq_succ_of_ne_zero (Nat.ne_of_gt hpos)
    obtain ⟨j, rfl⟩ := Nat.exists_eq_succ_of_ne_zero hj0
    simp [hp] at htwice

end Ostreambuf

/-- **What a stream sends.** For every program and every sequence of results of `send()`: if no
`send()` takes anything after one that took a part, and the destructor's takes all it is offered
unless one before did not, then what the kernel accepted is a prefix of what was written, and all
of it unless a failure was reported. For bytes told apart the condition is necessary too. -/
theorem onstream_sends (size : Nat) (ops : List (StreamOp α)) (kernel : List SendResult) :
    let s := (Onstream.open_ size kernel).run ops
    let socket := s.buffer.destruct.rw
    (SafeSends s.buffer.rw.sends socket.sends →
        InOrder s.badbit socket.accepted (Onstream.written ops)) ∧
      ((Onstream.written ops).Nodup →
        InOrder s.badbit socket.accepted (Onstream.written ops) →
          SafeSends s.buffer.rw.sends socket.sends) := by
  intro s socket
  have hinv : s.Inv (Onstream.written ops) := by
    simpa using (Onstream.inv_open size kernel).run ops
  obtain ⟨hgood, hwhole⟩ | ⟨hbad, hstopped⟩ := hinv
  · rw [hgood]
    exact ⟨hwhole.destruct.1, fun _ => hwhole.destruct.2⟩
  · rw [hbad]
    exact hstopped.destruct

instance [DecidableEq α] (reported : Bool) (accepted written : List α) :
    Decidable (InOrder reported accepted written) :=
  inferInstanceAs (Decidable (_ ∧ _))

/-- Two bytes, of which a flush sends one. -/
def shortSend : Onstream (Fin 256) :=
  (Onstream.open_ 1024 [.sent 1, .sent 2]).run [.write [0, 1], .flush]

/-- The destructor sends both bytes again. -/
theorem onstream_resends :
    shortSend.buffer.destruct.rw.accepted = [0, 0, 1] ∧
      ¬ InOrder shortSend.badbit shortSend.buffer.destruct.rw.accepted
        (Onstream.written [.write [0, 1], .flush]) := by
  decide

end Nanonet
