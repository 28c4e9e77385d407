import Nanonet.Net.InputOnce
import Nanonet.Net.SendOnce

/-!
# From one stream to the other

A connection with an `onstream` at one end and an `instream` at the other. The kernels of both sides
carry a byte stream between them: what `send()` accepts is in flight until a `recv()` delivers it,
in order, and the end of the file comes when nothing is in flight and the `onstream` is gone, whose
destructor shuts the connection down for writing. How much every `send()` accepts and every `recv()`
delivers, where they fail, and which side is when at its turn are left open. What is read is what
was accepted, in order (`Link.in_order`), and at the end of the file it is all of what was written,
with no failure reported, exactly where no `send()` was short (`Link.complete`).
-/

namespace Nanonet

variable {α : Type} [DecidableEq α]

/-- The two streams of a connection and what is between them. -/
structure Link (α : Type) where
  out : Onstream α
  /-- The `onstream` is destroyed. -/
  closed : Bool
  /-- What was accepted on one side and not yet delivered on the other. -/
  flight : List α
  inp : GetState α
  /-- What the program wrote. -/
  written : List α

/-- One side's turn, with what the kernel does to its calls of `send()` or `recv()`. -/
inductive LinkMove (α : Type) where
  | use (op : StreamOp α) (kernel : List SendResult)
  | close (kernel : List SendResult)
  | read (op : GetOp) (outcome : ReadOutcome α)

namespace Onstream

/-- The next calls of `send()` have these results. -/
def withKernel (s : Onstream α) (kernel : List SendResult) : Onstream α :=
  { s with buffer := { s.buffer with rw := { s.buffer.rw with kernel := kernel } } }

def accepted (s : Onstream α) : List α := s.buffer.rw.accepted

def destruct (s : Onstream α) : Onstream α := { s with buffer := s.buffer.destruct }

end Onstream

/-- The next `recv()` has this outcome. -/
def GetState.answering (s : GetState α) (outcome : ReadOutcome α) : GetState α :=
  { s with m := { s.m with script := fun _ => outcome } }

namespace Link

def start (size : Nat) (inp : GetState α) : Link α :=
  ⟨Onstream.open_ size [], false, [], inp, []⟩

/-- What a `recv()` may come to: a part of what is in flight, the end of the file where this is all
there was, or a failure. -/
def Offers (l : Link α) : ReadOutcome α → Prop
  | .data first more => first :: more <+: l.flight
  | .eof => l.closed = true ∧ l.flight = []
  | .error => True

instance (l : Link α) : (outcome : ReadOutcome α) → Decidable (l.Offers outcome)
  | .data first more => inferInstanceAs (Decidable (first :: more <+: l.flight))
  | .eof => inferInstanceAs (Decidable (_ ∧ _))
  | .error => .isTrue trivial

/-- The sending side is at `out` now, and what it has newly accepted is in flight. -/
def send (l : Link α) (out : Onstream α) : Link α :=
  { l with out := out, flight := l.flight ++ out.accepted.drop l.out.accepted.length }

/-- The receiving side is at `inp` now, and what it has newly received is no longer in flight. -/
def receive (l : Link α) (inp : GetState α) : Link α :=
  { l with inp := inp, flight := l.flight.drop (inp.m.received.length - l.inp.m.received.length) }

def step (l : Link α) : LinkMove α → Option (Link α)
  | .use op kernel =>
    if l.closed then none
    else
      some { l.send ((l.out.withKernel kernel).exec op) with
        written := l.written ++ Onstream.written [op] }
  | .close kernel =>
    if l.closed then none
    else some { l.send (l.out.withKernel kernel).destruct with closed := true }
  | .read op outcome =>
    if op ≠ .sungetc ∧ l.Offers outcome then some (l.receive ((l.inp.answering outcome).exec op))
    else none

end Link

/-! ### The sending side -/

section sender

variable {α : Type}

namespace Ostreambuf

theorem flush_accepted (b : Ostreambuf α) : b.rw.accepted <+: b.flush.2.rw.accepted := by
  by_cases hpending : b.pending = []
  · simp [flush, hpending]
  · obtain ⟨k, kernel, -, hflush⟩ := b.flush_spec hpending
    rw [hflush]
    exact List.prefix_append _ _

theorem sputc_accepted (b : Ostreambuf α) (c : α) :
    b.rw.accepted <+: (b.sputc c).2.rw.accepted := by
  unfold sputc
  split_ifs
  · exact List.prefix_rfl
  · exact flush_accepted { b with pending := b.pending ++ [c] }

theorem xsputn_accepted (b : Ostreambuf α) (cs : List α) :
    b.rw.accepted <+: (b.xsputn cs).2.rw.accepted := by
  induction cs generalizing b with
  | nil => exact List.prefix_rfl
  | cons c cs ih =>
    have haccepted := b.sputc_accepted c
    rcases hput : b.sputc c with ⟨_ | _, b'⟩ <;> rw [hput] at haccepted <;>
      simp only [xsputn, hput]
    · exact haccepted
    · exact haccepted.trans (ih b')

theorem flush_sends (b : Ostreambuf α) : b.rw.sends <+: b.flush.2.rw.sends := by
  by_cases hpending : b.pending = []
  · simp [flush, hpending]
  · obtain ⟨k, kernel, -, hflush⟩ := b.flush_spec hpending
    rw [hflush]
    exact List.prefix_append _ _

end Ostreambuf

namespace Onstream

variable {s : Onstream α} {w : List α}

theorem exec_accepted (s : Onstream α) (op : StreamOp α) : s.accepted <+: (s.exec op).accepted := by
  unfold Onstream.exec
  cases op with
  | write cs =>
    split_ifs
    · exact List.prefix_rfl
    · exact s.buffer.xsputn_accepted cs
  | flush =>
    split_ifs
    · exact List.prefix_rfl
    · exact s.buffer.flush_accepted

theorem Inv.withKernel (h : s.Inv w) (kernel : List SendResult) : (s.withKernel kernel).Inv w := by
  obtain ⟨hgood, hwhole⟩ | ⟨hbad, hstopped⟩ := h
  · exact .inl ⟨hgood, hwhole.bytes, hwhole.full⟩
  · exact .inr ⟨hbad, hstopped⟩

theorem Inv.prefix (h : s.Inv w) : s.accepted <+: w := by
  obtain ⟨-, hwhole⟩ | ⟨-, flushed, more, earlier, k, -, rfl, haccepted, -⟩ := h
  · exact ⟨s.buffer.pending, hwhole.bytes⟩
  · rw [accepted, haccepted, List.prefix_append_right_inj]
    exact (List.take_prefix k _).trans (List.prefix_append _ _)

theorem Inv.destruct_prefix (h : s.Inv w)
    (honce : s.destruct.buffer.rw.sends.Pairwise fun x y => x.Partial → y.taken = 0) :
    s.destruct.accepted <+: w := by
  obtain ⟨-, hwhole⟩ | ⟨-, hstopped⟩ := h
  · obtain ⟨-, hwhole', -⟩ | ⟨-, flushed, more, earlier, k, -, rfl, haccepted, -⟩ := hwhole.flush
    · exact ⟨s.destruct.buffer.pending, hwhole'.bytes⟩
    · have hsent : s.destruct.accepted = _ := haccepted
      rw [hsent, List.prefix_append_right_inj]
      exact (List.take_prefix k _).trans (List.prefix_append _ _)
  · obtain ⟨-, -, earlier, k, hk, -, -, hsends, -⟩ := id hstopped
    have hlast : (⟨s.buffer.pending.length, k⟩ : Send) ∈ s.buffer.rw.sends := by simp [hsends]
    exact (hstopped.destruct.1 ⟨honce, fun hbefore =>
      absurd (hbefore _ hlast) (Nat.ne_of_lt hk)⟩).1

theorem Inv.destruct_whole (h : s.Inv w) :
    s.badbit = false ∧ s.destruct.accepted = w ↔ ∀ x ∈ s.destruct.buffer.rw.sends, x.Full := by
  constructor
  · rintro ⟨hgood, haccepted⟩
    obtain ⟨-, hwhole⟩ | ⟨hbad, -⟩ := h
    · have hsafe := hwhole.destruct.2 ⟨haccepted ▸ List.prefix_rfl, fun _ => haccepted⟩
      exact hsafe.lastFull hwhole.full
    · cases hgood.symm.trans hbad
  · intro hfull
    have hbefore : ∀ x ∈ s.buffer.rw.sends, x.Full := fun x hx =>
      hfull x (s.buffer.flush_sends.subset hx)
    obtain ⟨hgood, hwhole⟩ | ⟨-, -, -, earlier, k, hk, -, -, hsends, -⟩ := h
    · refine ⟨hgood, (hwhole.destruct.1 ⟨?_, fun _ => hfull⟩).2 rfl⟩
      exact List.pairwise_of_forall_mem_list fun x hx _ _ hpartial =>
        absurd hpartial (not_partial_of_full (hfull x hx))
    · exact absurd (hbefore ⟨s.buffer.pending.length, k⟩ (by simp [hsends])) (Nat.ne_of_lt hk)

end Onstream

end sender

/-! ### The receiving side -/

section receiver

variable {α : Type} {s : GetState α} {op : GetOp} {buffer size sizePb : Nat} {mem : Memory α}

/-- What the answer to a `read()` lets it receive. -/
def ReadOutcome.bytes : ReadOutcome α → List α
  | .data first more => first :: more
  | .eof | .error => []

/-- `m'` has received a part of the answer to one `read()` of `m`, from its start. -/
def Source.Advanced (m m' : Source α) : Prop :=
  ∃ bytes, m'.received = m.received ++ bytes ∧ bytes <+: (m.script 0).bytes

theorem Source.advanced_self (m : Source α) : m.Advanced m :=
  ⟨[], (List.append_nil _).symm, List.nil_prefix⟩

theorem Source.advanced_read (m : Source α) (buf n : Nat) : m.Advanced (m.read buf n).2 := by
  unfold read
  cases hscript : m.script 0 with
  | data first more =>
    refine ⟨(first :: more).take n, rfl, ?_⟩
    rw [hscript]
    exact List.take_prefix n _
  | eof => exact ⟨[], (List.append_nil _).symm, List.nil_prefix⟩
  | error => exact ⟨[], (List.append_nil _).symm, List.nil_prefix⟩

theorem GetBuffer.advanced_underflow (b : GetBuffer) (m : Source α) :
    m.Advanced (b.underflow m).2.2 := by
  unfold underflow
  split_ifs
  · exact m.advanced_self
  · dsimp only
    split_ifs
    · exact Source.advanced_read { m with mem := _ } _ _
    · exact Source.advanced_read { m with mem := _ } _ _

theorem GetState.advanced_exec (s : GetState α) (op : GetOp) : s.m.Advanced (s.exec op).m := by
  have hmem : (s.exec op).m = (s.call op).2.2 := by cases op <;> rfl
  rw [hmem]
  cases op with
  | sgetc =>
    rw [call, GetBuffer.sgetc]
    split_ifs
    · exact s.m.advanced_self
    · exact s.b.advanced_underflow s.m
  | sbumpc =>
    rw [call, GetBuffer.sbumpc]
    split_ifs
    · exact s.m.advanced_self
    · have hread := s.b.advanced_underflow s.m
      rw [GetBuffer.uflow]
      split
      · exact hread
      · exact hread
  | sungetc =>
    rw [call, GetBuffer.sungetc]
    split_ifs
    · exact s.m.advanced_self
    · exact s.m.advanced_self

theorem GetState.Faithful.answering (h : s.Faithful buffer size sizePb mem)
    (outcome : ReadOutcome α) : (s.answering outcome).Faithful buffer size sizePb mem :=
  ⟨h.placed, h.delivered, h.requests, h.frame⟩

end receiver

namespace Link

/-! ### The invariant -/

/-- The `onstream` is there, with nothing lost before its first failure, or it was and is destroyed.
-/
def Sending (l : Link α) : Prop :=
  l.closed = false ∧ l.out.Inv l.written ∨
    l.closed = true ∧ ∃ s : Onstream α, s.Inv l.written ∧ l.out = s.destruct

/-- What was received and what is in flight is what was accepted. -/
structure Sound (buffer size sizePb : Nat) (mem : Memory α) (l : Link α) : Prop where
  inp : l.inp.Faithful buffer size sizePb mem
  carried : l.inp.m.received ++ l.flight = l.out.accepted
  sending : l.Sending

variable {buffer size sizePb : Nat} {mem : Memory α} {l l' : Link α} {move : LinkMove α}

omit [DecidableEq α] in
theorem sound_start (outSize buffer size sizePb : Nat) (mem : Memory α)
    (script : Nat → ReadOutcome α) :
    (start outSize (.start buffer size sizePb mem script)).Sound buffer size sizePb mem where
  inp := GetState.faithful_start buffer size sizePb mem script
  carried := rfl
  sending := .inl ⟨rfl, Onstream.inv_open outSize []⟩

omit [DecidableEq α] in
theorem carried_send (h : l.inp.m.received ++ l.flight = l.out.accepted) {out : Onstream α}
    (hout : l.out.accepted <+: out.accepted) :
    (l.send out).inp.m.received ++ (l.send out).flight = (l.send out).out.accepted := by
  obtain ⟨new, hnew⟩ := hout
  show l.inp.m.received ++ (l.flight ++ out.accepted.drop l.out.accepted.length) = out.accepted
  rw [← List.append_assoc, h, ← hnew, List.drop_left]

omit [DecidableEq α] in
theorem carried_receive (h : l.inp.m.received ++ l.flight = l.out.accepted) {inp : GetState α}
    {bytes : List α} (hinp : inp.m.received = l.inp.m.received ++ bytes)
    (hbytes : bytes <+: l.flight) :
    (l.receive inp).inp.m.received ++ (l.receive inp).flight = (l.receive inp).out.accepted := by
  obtain ⟨rest, hrest⟩ := hbytes
  show inp.m.received ++ l.flight.drop (inp.m.received.length - l.inp.m.received.length) =
    l.out.accepted
  rw [hinp, List.length_append, Nat.add_sub_cancel_left, ← h, ← hrest, List.drop_left,
    List.append_assoc]

omit [DecidableEq α] in
theorem Offers.bytes {outcome : ReadOutcome α} (h : l.Offers outcome) :
    outcome.bytes <+: l.flight := by
  cases outcome with
  | data first more => exact h
  | eof => exact List.nil_prefix
  | error => exact List.nil_prefix

theorem Sound.step (h : l.Sound buffer size sizePb mem) (hsize : 1 ≤ size)
    (hstep : l.step move = some l') : l'.Sound buffer size sizePb mem := by
  obtain ⟨hinp, hcarried, hsending⟩ := h
  cases move with
  | use op kernel =>
    rw [Link.step] at hstep
    split_ifs at hstep with hclosed
    obtain rfl := Option.some.inj hstep
    obtain ⟨-, hinv⟩ | ⟨hclosed', -⟩ := hsending
    · exact ⟨hinp, carried_send hcarried (Onstream.exec_accepted (l.out.withKernel kernel) op),
        .inl ⟨by simpa [send] using hclosed, (hinv.withKernel kernel).exec op⟩⟩
    · exact absurd hclosed' hclosed
  | close kernel =>
    rw [Link.step] at hstep
    split_ifs at hstep with hclosed
    obtain rfl := Option.some.inj hstep
    obtain ⟨-, hinv⟩ | ⟨hclosed', -⟩ := hsending
    · exact ⟨hinp, carried_send hcarried (l.out.withKernel kernel).buffer.flush_accepted,
        .inr ⟨rfl, l.out.withKernel kernel, hinv.withKernel kernel, rfl⟩⟩
    · exact absurd hclosed' hclosed
  | read op outcome =>
    rw [Link.step] at hstep
    split_ifs at hstep with hread
    obtain rfl := Option.some.inj hstep
    obtain ⟨bytes, hreceived, hbytes⟩ := (l.inp.answering outcome).advanced_exec op
    exact ⟨(hinp.answering outcome).exec hsize hread.1,
      carried_receive hcarried hreceived (hbytes.trans hread.2.bytes), hsending⟩

theorem Sound.run (h : l.Sound buffer size sizePb mem) (hsize : 1 ≤ size)
    {moves : List (LinkMove α)} (hrun : moves.foldlM Link.step l = some l') :
    l'.Sound buffer size sizePb mem := by
  induction moves generalizing l with
  | nil =>
    obtain rfl := Option.some.inj hrun
    exact h
  | cons move moves ih =>
    rw [List.foldlM_cons] at hrun
    obtain ⟨next, hstep, hrest⟩ := Option.bind_eq_some_iff.1 hrun
    exact ih (h.step hsize hstep) hrest

/-! ### What is read -/

/-- No `send()` takes anything after one that took a part: nothing is sent twice. -/
def SendsOnce (l : Link α) : Prop :=
  l.out.buffer.rw.sends.Pairwise fun x y => x.Partial → y.taken = 0

omit [DecidableEq α] in
theorem Sound.delivered (h : l.Sound buffer size sizePb mem) :
    l.inp.consumed ++ l.inp.unread ++ l.flight = l.out.accepted := by
  rw [h.inp.delivered]
  exact h.carried

omit [DecidableEq α] in
theorem Sound.accepted (h : l.Sound buffer size sizePb mem) (honce : l.SendsOnce) :
    l.out.accepted <+: l.written := by
  obtain ⟨-, hinv⟩ | ⟨-, s, hinv, hout⟩ := h.sending
  · exact hinv.prefix
  · rw [SendsOnce, hout] at honce
    rw [hout]
    exact hinv.destruct_prefix honce

omit [DecidableEq α] in
theorem Sound.whole_iff (h : l.Sound buffer size sizePb mem) (hclosed : l.closed = true) :
    l.out.badbit = false ∧ l.out.accepted = l.written ↔
      ∀ x ∈ l.out.buffer.rw.sends, x.Full := by
  obtain ⟨hopen, -⟩ | ⟨-, s, hinv, hout⟩ := h.sending
  · rw [hopen] at hclosed
    cases hclosed
  · rw [hout]
    exact hinv.destruct_whole

variable {script : Nat → ReadOutcome α} {moves : List (LinkMove α)}

/-- Whatever both kernels do and whoever is at its turn: what is read, what is unread and what is in
flight is what was accepted, in order. As long as nothing is sent twice, what is read is the
beginning of what was written. -/
theorem in_order (hsize : 1 ≤ size) (outSize buffer sizePb : Nat)
    (hrun : moves.foldlM Link.step (start outSize (.start buffer size sizePb mem script)) =
      some l) :
    l.inp.consumed ++ l.inp.unread ++ l.flight = l.out.accepted ∧
      (l.SendsOnce → l.inp.consumed <+: l.written) := by
  have h : l.Sound buffer size sizePb mem :=
    (sound_start outSize buffer size sizePb mem script).run hsize hrun
  refine ⟨h.delivered, fun honce => ?_⟩
  have hread : l.inp.consumed <+: l.out.accepted := by
    rw [← h.delivered, List.append_assoc]
    exact List.prefix_append _ _
  exact hread.trans (h.accepted honce)

/-- Three bytes of which the destructor's `send()` takes two. -/
def partialClose : List (LinkMove Char) :=
  [.use (.write ['a', 'b', 'c']) [], .close [.sent 2], .read .sbumpc (.data 'a' ['b'])]

theorem partialClose_run :
    (partialClose.foldlM Link.step
      (start 4 (.start 16 2 1 (fun _ => ' ') fun _ => .error))).isSome = true := by
  decide +kernel

theorem in_order_partialClose :
    let l := Option.get _ partialClose_run
    l.inp.consumed ++ l.inp.unread ++ l.flight = l.out.accepted ∧ l.inp.consumed <+: l.written := by
  have honce : (Option.get _ partialClose_run).SendsOnce := by
    have hsends : (Option.get _ partialClose_run).out.buffer.rw.sends = [⟨3, 2⟩] := by
      decide +kernel
    rw [SendsOnce, hsends]
    exact List.pairwise_singleton _ _
  obtain ⟨hdelivered, hprefix⟩ :=
    in_order (by decide) 4 16 1 (Option.some_get partialClose_run).symm
  exact ⟨hdelivered, hprefix honce⟩

/-- The end of the file is reported where everything that was accepted is read. Then no failure was
reported and everything that was written is read exactly where no `send()` was short, that of the
destructor included. -/
theorem complete (hsize : 1 ≤ size) (outSize buffer sizePb : Nat)
    (hrun : moves.foldlM Link.step (start outSize (.start buffer size sizePb mem script)) =
      some l)
    {op : GetOp} (hread : l.step (.read op .eof) = some l')
    (hend : ((l.inp.answering .eof).call op).1 = none) :
    l.inp.consumed = l.out.accepted ∧
      (l.out.badbit = false ∧ l.inp.consumed = l.written ↔
        ∀ x ∈ l.out.buffer.rw.sends, x.Full) := by
  have h : l.Sound buffer size sizePb mem :=
    (sound_start outSize buffer size sizePb mem script).run hsize hrun
  rw [Link.step] at hread
  split_ifs at hread with hoffers
  obtain ⟨hop, hclosed, hflight⟩ := hoffers
  have hplaced := (h.inp.answering .eof).placed
  have hempty : l.inp.unread = [] :=
    GetState.unread_eq_nil (GetState.call_eof hplaced hsize hop hend).1
  have hall : l.inp.consumed = l.out.accepted := by
    rw [← h.delivered, hempty, hflight, List.append_nil, List.append_nil]
  exact ⟨hall, hall ▸ h.whole_iff hclosed⟩

/-- Five bytes through buffers of four and of two. -/
def fiveBytes : List (LinkMove Char) :=
  [.use (.write ['a', 'b', 'c', 'd', 'e']) [.sent 4], .read .sbumpc (.data 'a' ['b', 'c']),
    .read .sbumpc .error, .close [.eintr, .sent 1], .read .sbumpc (.data 'c' ['d', 'e']),
    .read .sbumpc .error, .read .sbumpc (.data 'e' [])]

theorem fiveBytes_run :
    (fiveBytes.foldlM Link.step
      (start 4 (.start 16 2 1 (fun _ => ' ') fun _ => .error))).isSome = true := by
  decide +kernel

def fiveRead : Link Char := Option.get _ fiveBytes_run

theorem complete_five :
    fiveRead.out.badbit = false ∧ fiveRead.inp.consumed = fiveRead.written := by
  have hread : (fiveRead.step (.read .sbumpc .eof)).isSome = true := by decide +kernel
  have hfull : ∀ x ∈ fiveRead.out.buffer.rw.sends, x.taken = x.offered := by decide +kernel
  have hall := complete (by decide) 4 16 1 (Option.some_get fiveBytes_run).symm
    (Option.some_get hread).symm (by decide +kernel)
  exact hall.2.2 hfull

end Link

end Nanonet
