import Nanonet.Util.Getline
import Nanonet.Util.Strings

/-!
# The lines of a connection

`handle_connection` of `server.cpp`, and the bounded `getline` against `std::getline` where every
line fits. `std::getline` delivers all lines of a stream (`deliver_stdGetline`); the bounded one and
with it the server lose the last line if it does not end in a newline (`everyLine_iff`).
-/

namespace Nanonet

/-- `std::getline( is, s )`, with the stream converted to `bool`. -/
def stdGetline : Call (IStream × Text) Bool := fun (is, s) =>
  match is.getline with
  | (some line, is') => .ok true (is', line)
  | (none, is') => .ok false (is', if is.good then [] else s)

section handleConnection

variable {σ : Type}

/-- The loop of `handle_connection`, with the lines that the handler gets. `running` is the flag at
each test, and a handler works on the stream and on all that it can write to. -/
def handlerLoop (running : Nat → Bool) (maxLineLength : Int)
    (handler : Text → Call (IStream × σ) Bool) :
    Nat → Nat → Call (IStream × Text × σ) (List Text)
  | 0, _ => fun st => .error .outOfFuel st
  | fuel + 1, k => fun (is, line, w) =>
    if running k then
      match getline maxLineLength (is, line) with
      | .error e (is, line) => .error e (is, line, w)
      | .ok false (is, line) => .ok [] (is, line, w)
      | .ok true (is, line) =>
        match handler line (is, w) with
        | .error e (is, w) => .error e (is, line, w)
        | .ok false (is, w) => .ok [line] (is, line, w)
        | .ok true (is, w) =>
          match handlerLoop running maxLineLength handler fuel (k + 1) (is, line, w) with
          | .error e st => .error e st
          | .ok lines st => .ok (line :: lines) st
    else .ok [] (is, line, w)

/-- `handle_connection`, with the lines that the handler gets. -/
def handleConnection (running : Nat → Bool) (maxLineLength : Int) (welcome : Option (Call σ Unit))
    (handler : Text → Call (IStream × σ) Bool) (fuel : Nat) : Call (IStream × σ) (List Text) :=
  let loop : Call (IStream × σ) (List Text) := fun (is, w) =>
    match handlerLoop running maxLineLength handler fuel 0 (is, [], w) with
    | .error e (is, _, w) => .error e (is, w)
    | .ok lines (is, _, w) => .ok lines (is, w)
  fun (is, w) =>
    match welcome with
    | none => loop (is, w)
    | some welcome =>
      match welcome w with
      | .error e w => .error e (is, w)
      | .ok _ w => loop (is, w)

end handleConnection

/-! ### Lines -/

/-- The lines of a text. The last one need not end in a newline. -/
def linesOf : Text → List Text
  | [] => []
  | c :: cs =>
    if isnewline c then [] :: linesOf cs
    else
      match linesOf cs with
      | [] => [[c]]
      | line :: lines => (c :: line) :: lines

theorem of_notMem_cons {c : Char} {cs : Text} (h : '\n' ∉ c :: cs) :
    isnewline c = false ∧ '\n' ∉ cs := by
  simpa [isnewline] using h

theorem linesOf_line {line : Text} (h : '\n' ∉ line) (rest : Text) :
    linesOf (line ++ '\n' :: rest) = line :: linesOf rest := by
  induction line with
  | nil => rfl
  | cons c cs ih =>
    obtain ⟨hc, hcs⟩ := of_notMem_cons h
    simp [linesOf, hc, ih hcs]

/-- What is left after the last newline, if it is a line. -/
def lastLine (r : Text) : List Text := if r = [] then [] else [r]

theorem linesOf_last {r : Text} (h : '\n' ∉ r) : linesOf r = lastLine r := by
  induction r with
  | nil => rfl
  | cons c cs ih =>
    obtain ⟨hc, hcs⟩ := of_notMem_cons h
    rw [linesOf, ih hcs]
    cases cs <;> simp [lastLine, hc]

theorem linesOf_flatMap {ss : List Text} {r : Text} (hss : ∀ line ∈ ss, '\n' ∉ line)
    (hr : '\n' ∉ r) : linesOf ((ss.flatMap fun line => line ++ ['\n']) ++ r) = ss ++ lastLine r := by
  induction ss with
  | nil => exact linesOf_last hr
  | cons line ss ih =>
    obtain ⟨hline, hss⟩ := List.forall_mem_cons.1 hss
    simpa [ih hss] using linesOf_line hline ((ss.flatMap fun line => line ++ ['\n']) ++ r)

theorem last_eq_nil_iff (ss : List Text) {r : Text} (hr : '\n' ∉ r) :
    let text := (ss.flatMap fun line => line ++ ['\n']) ++ r
    r = [] ↔ text = [] ∨ text.getLast? = some '\n' := by
  dsimp only
  constructor
  · rintro rfl
    obtain rfl | ⟨init, line, rfl⟩ := List.eq_nil_or_concat ss
    · exact .inl rfl
    · exact .inr (by simp)
  · rintro (htext | hlast)
    · exact (List.append_eq_nil_iff.1 htext).2
    · by_contra hne
      rw [List.getLast?_append_of_ne_nil _ hne] at hlast
      exact hr (List.mem_of_getLast? hlast)

/-! ### The two functions -/

theorem stdGetline_last {c : Char} {cs : Text} (h : '\n' ∉ c :: cs) (s : Text) :
    stdGetline (.ofText (c :: cs), s) = .ok true (⟨[], true, false⟩, c :: cs) := by
  rw [stdGetline, IStream.ofText, IStream.getline, IStream.getWhile_all (all_not_newline h)]

theorem stdGetline_eof (s : Text) :
    stdGetline (⟨[], true, false⟩, s) = .ok false (⟨[], true, true⟩, s) := rfl

theorem deliver_stdGetline (fuel : Nat) (text s : Text) (hfuel : text.length < fuel) :
    ∃ st, deliver stdGetline fuel (.ofText text, s) = .ok (linesOf text) st := by
  induction fuel generalizing text s with
  | zero => exact absurd hfuel (Nat.not_lt_zero _)
  | succ fuel ih =>
    by_cases hmem : '\n' ∈ text
    · obtain ⟨line, rest, rfl, hline⟩ := List.eq_append_cons_of_mem hmem
      rw [List.length_append, List.length_cons] at hfuel
      obtain ⟨st, hrun⟩ := ih rest line (by omega)
      refine ⟨st, ?_⟩
      rw [linesOf_line hline]
      refine deliver_step ?_ hrun
      rw [stdGetline, IStream.ofText, IStream.getline_line hline]
      rfl
    · rw [linesOf_last hmem]
      cases text with
      | nil => exact ⟨_, deliver_stop rfl⟩
      | cons c cs =>
        obtain ⟨fuel, rfl⟩ : ∃ k, fuel = k + 1 := ⟨fuel - 1, by simp at hfuel; omega⟩
        exact ⟨_, deliver_step (stdGetline_last hmem s) (deliver_stop (stdGetline_eof _))⟩

theorem infix_terminatedAll {maxsize : Int} {ss : List Text} {line : Text} (h : line ∈ ss) :
    line <:+: terminatedAll maxsize ss := by
  have hline : line <:+: terminated maxsize line := by
    unfold terminated
    split_ifs
    · exact ⟨[], ['\n'], rfl⟩
    · exact List.infix_refl line
  rw [terminatedAll, List.flatMap_def]
  exact hline.trans (List.infix_of_mem_flatten (List.mem_map_of_mem h))

theorem deliver_getline_short {maxsize : Int} (h : 0 < maxsize) {text : Text}
    (hshort : ∀ block, block <:+: text → '\n' ∉ block → (block.length : Int) < maxsize) (s : Text)
    {fuel : Nat} (hfuel : text.length < fuel) : ∃ ss r,
      deliver (getline maxsize) fuel (.ofText text, s) = .ok ss (⟨[], true, true⟩, r) ∧
      linesOf text = ss ++ lastLine r ∧ (r = [] ↔ text = [] ∨ text.getLast? = some '\n') := by
  obtain ⟨ss, r, hrun, hss, hr, -, htext⟩ := deliver_getline h fuel text s hfuel
  have hterminated : terminatedAll maxsize ss = ss.flatMap fun line => line ++ ['\n'] := by
    refine List.flatMap_congr fun line hline => if_pos (hshort line ?_ (hss line hline).1)
    rw [htext]
    exact (infix_terminatedAll hline).trans (List.prefix_append _ r).isInfix
  rw [hterminated] at htext
  have hlines := linesOf_flatMap (fun line hline => (hss line hline).1) hr
  exact ⟨ss, r, hrun, htext ▸ hlines, htext ▸ last_eq_nil_iff ss hr⟩

/-! ### The server -/

section server

variable {σ : Type} {handler : Text → Call (IStream × σ) Bool}

/-- The handler goes on with every line and leaves the stream to the server. -/
def GoesOn (handler : Text → Call (IStream × σ) Bool) : Prop :=
  ∀ line is w, ∃ w', handler line (is, w) = .ok true (is, w')

/-- The welcome function, if there is one, returns. -/
def Welcomes (welcome : Option (Call σ Unit)) : Prop :=
  ∀ f ∈ welcome, ∀ w, ∃ w', f w = .ok () w'

theorem handlerLoop_of_deliver {maxLineLength : Int} (hhandler : GoesOn handler)
    {running : Nat → Bool} (hrunning : ∀ k, running k = true) {fuel : Nat} {ss : List Text}
    {is is' : IStream} {s s' : Text}
    (h : deliver (getline maxLineLength) fuel (is, s) = .ok ss (is', s')) (k : Nat) (w : σ) :
    ∃ w', handlerLoop running maxLineLength handler fuel k (is, s, w) = .ok ss (is', s', w') := by
  induction fuel generalizing ss is s k w with
  | zero => cases h
  | succ fuel ih =>
    obtain ⟨hread, rfl⟩ | ⟨is₁, line, ss', hread, hrest, rfl⟩ := deliver_cases h
    · exact ⟨w, by simp only [handlerLoop, hrunning, if_true, hread]⟩
    · obtain ⟨w₁, hw₁⟩ := hhandler line is₁ w
      obtain ⟨w', hloop⟩ := ih hrest (k + 1) w₁
      exact ⟨w', by simp only [handlerLoop, hrunning, if_true, hread, hw₁, hloop]⟩

theorem handleConnection_of_deliver {maxLineLength : Int} {welcome : Option (Call σ Unit)}
    (hwelcome : Welcomes welcome) (hhandler : GoesOn handler) {running : Nat → Bool}
    (hrunning : ∀ k, running k = true) {fuel : Nat} {ss : List Text} {is is' : IStream} {s' : Text}
    (h : deliver (getline maxLineLength) fuel (is, []) = .ok ss (is', s')) (w : σ) :
    ∃ w', handleConnection running maxLineLength welcome handler fuel (is, w) =
      .ok ss (is', w') := by
  cases welcome with
  | none =>
    obtain ⟨w', hloop⟩ := handlerLoop_of_deliver hhandler hrunning h 0 w
    exact ⟨w', by simp only [handleConnection, hloop]⟩
  | some f =>
    obtain ⟨w₁, hw₁⟩ := hwelcome f rfl w
    obtain ⟨w', hloop⟩ := handlerLoop_of_deliver hhandler hrunning h 0 w₁
    exact ⟨w', by simp only [handleConnection, hw₁, hloop]⟩

end server

theorem exists_ok_iff {τ : Type} {ss : List Text} {r : Text} {st : τ} :
    (∃ st', (EStateM.Result.ok ss st : EStateM.Result Exn τ (List Text)) =
      .ok (ss ++ lastLine r) st') ↔ r = [] := by
  by_cases hr : r = [] <;> simp [lastLine, hr]

/-- **Lines that fit.** Where every line of a stream is shorter than `maxsize`, the loop around the
bounded `getline` delivers what the loop around `std::getline` delivers, and a server passes every
line to its handler, iff the stream is empty or ends in a newline. -/
theorem everyLine_iff {σ : Type} {maxsize : Int} (h : 0 < maxsize) {text : Text}
    (hshort : ∀ block, block <:+: text → '\n' ∉ block → (block.length : Int) < maxsize)
    {fuel : Nat} (hfuel : text.length < fuel) {running : Nat → Bool}
    (hrunning : ∀ k, running k = true) {welcome : Option (Call σ Unit)}
    (hwelcome : Welcomes welcome) {handler : Text → Call (IStream × σ) Bool}
    (hhandler : GoesOn handler) (s : Text) (w : σ) :
    (∃ st, deliver stdGetline fuel (.ofText text, s) = .ok (linesOf text) st) ∧
    ((∃ st, deliver (getline maxsize) fuel (.ofText text, s) = .ok (linesOf text) st) ↔
      text = [] ∨ text.getLast? = some '\n') ∧
    ((∃ st, handleConnection running maxsize welcome handler fuel (.ofText text, w) =
        .ok (linesOf text) st) ↔
      text = [] ∨ text.getLast? = some '\n') := by
  refine ⟨deliver_stdGetline fuel text s hfuel, ?_, ?_⟩
  · obtain ⟨ss, r, hrun, hlines, hr⟩ := deliver_getline_short h hshort s hfuel
    rw [← hr, hlines, hrun]
    exact exists_ok_iff
  · obtain ⟨ss, r, hrun, hlines, hr⟩ := deliver_getline_short h hshort [] hfuel
    obtain ⟨w', hserved⟩ := handleConnection_of_deliver hwelcome hhandler hrunning hrun w
    rw [← hr, hlines, hserved]
    exact exists_ok_iff

/-- A handler that keeps the lines. -/
def collect (line : Text) : Call (IStream × List Text) Bool := fun (is, lines) =>
  .ok true (is, lines ++ [line])

theorem everyLine_iff_newline :
    ∃ st, handleConnection (fun _ => true) 9 none collect 5 (.ofText ['a', '\n', 'b', '\n'], []) =
      .ok [['a'], ['b']] st := by
  have hshort : ∀ block, block <:+: ['a', '\n', 'b', '\n'] → '\n' ∉ block →
      (block.length : Int) < 9 := fun block hblock _ => by
    have hlength : block.length ≤ 4 := hblock.length_le
    omega
  exact (everyLine_iff (by decide) hshort (by decide) (fun _ => rfl) (by rintro f ⟨⟩)
    (fun line is w => ⟨w ++ [line], rfl⟩) [] []).2.2.2 (.inr rfl)

/-- The stream `a` has a line that the server does not pass to its handler. -/
theorem lastLine_lost :
    (∀ st, deliver (getline 9) 3 (.ofText ['a'], []) ≠ .ok [['a']] st) ∧
      (∃ st, deliver stdGetline 3 (.ofText ['a'], []) = .ok [['a']] st) ∧
      handleConnection (fun _ => true) 9 none collect 3 (.ofText ['a'], []) =
        .ok [] (⟨[], true, true⟩, []) :=
  ⟨nofun, ⟨_, rfl⟩, rfl⟩

end Nanonet
