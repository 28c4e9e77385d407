import Nanonet.Registry.Rendering

/-!
# What `get_token` skips

`gaps` is what the lexer styles document: whitespace and the comments of the style. `munched` is
what the code skips, which in the percent style is `//` till the end of the line as well. A read
from the front of a text is the read from where `skip` stops, with the newlines skipped counted
(`read_skip`); there `switch` reads a token without another jump to `restart` (`read_stop`), except
that an unclosed `/*` takes the rest of the text (`read_unclosed`).
-/

namespace Nanonet

open Lexer

variable {D : Type}

/-! ### Comments -/

def blockComment : Brackets Char := ⟨['/', '*'], ['*', '/'], by decide⟩

/-- What may stand between two tokens: whitespace, and the documented comments of the style. -/
def LexerStyle.gaps (style : LexerStyle) : Gaps Char where
  space := isspace
  newline := '\n'
  line := [style.lineComment]
  block := if style.commentStyle = .cComments then some blockComment else none

/-- What the code skips: in the percent style also `//` till the end of the line. -/
def LexerStyle.munched (style : LexerStyle) : Gaps Char :=
  { style.gaps with
    line := style.lineComment ::
      if style.commentStyle = .percentComments then [['/', '/']] else [] }

structure Munches (style : LexerStyle) (g : Gaps Char) : Prop where
  space : g.space = isspace
  newline : g.newline = '\n'
  line : ∀ s ∈ g.line, s ∈ style.munched.line
  block : g.block = style.gaps.block

theorem munches_gaps (style : LexerStyle) : Munches style style.gaps :=
  ⟨rfl, rfl, by simp [LexerStyle.gaps, LexerStyle.munched], rfl⟩

theorem munches_munched (style : LexerStyle) : Munches style style.munched :=
  ⟨rfl, rfl, fun _ h => h, rfl⟩

/-! ### One comment -/

theorem read_nil [NumGet D] {L : Lexer D} (h : L.is = ⟨[], false, false⟩) :
    read L = .ok .END { L with is := ⟨[], true, true⟩, currentToken_ := .END } := by
  rw [read_eq]
  simp [scanWith, h, IStream.getWhile, IStream.span, return_]

theorem countP_isnewline_eq_zero {body : Text} (h : '\n' ∉ body) : body.countP isnewline = 0 :=
  List.countP_eq_zero.2 fun c hc => by simpa using all_not_newline h c hc

theorem countP_isnewline_append {w : Text} (h : '\n' ∉ w) (text : Text) :
    (text ++ w).countP isnewline = text.countP isnewline := by
  rw [List.countP_append, countP_isnewline_eq_zero h, Nat.add_zero]

/-- A comment till the end of the line, also where the text ends without a newline. -/
theorem munchLine_dropWhile [NumGet D] {L : Lexer D} {text : Text}
    (h : L.is = ⟨text, false, false⟩) :
    ∃ body, text = body ++ (text.dropWhile (· ≠ '\n')).tail ∧
      munchLine read L = read { L with
        is := ⟨(text.dropWhile (· ≠ '\n')).tail, false, false⟩
        lineNo_ := L.lineNo_ + body.countP isnewline } := by
  by_cases hmem : '\n' ∈ text
  · obtain ⟨body, rest, rfl, hbody⟩ := List.eq_append_cons_of_mem hmem
    have hdrop : (body ++ '\n' :: rest).dropWhile (· ≠ '\n') = '\n' :: rest := by
      rw [List.dropWhile_append_of_pos fun c hc => by simpa using ne_of_mem_of_not_mem hc hbody]
      rfl
    rw [hdrop]
    refine ⟨body ++ ['\n'], by simp, ?_⟩
    rw [munchLine_line body rest h hbody, List.countP_append, countP_isnewline_eq_zero hbody]
    rfl
  · have hdrop : text.dropWhile (· ≠ '\n') = [] :=
      List.dropWhile_eq_nil_iff.2 fun c hc => by simpa using ne_of_mem_of_not_mem hc hmem
    rw [hdrop]
    refine ⟨text, by simp, ?_⟩
    rw [munchLine_last h hmem, countP_isnewline_eq_zero hmem, read_nil rfl]
    rfl

/-! ### Everything that is skipped -/

variable [NumGet D]

/-- A comment till the end of the line starts after the first character of its mark. -/
theorem read_line {L : Lexer D} {s : Text} (hs : s ∈ L.style.munched.line) {b : Text}
    (h : L.is = ⟨s ++ b, false, false⟩) :
    read L = munchLine read { L with is := ⟨s.tail ++ b, false, false⟩ } := by
  obtain rfl | ⟨hpercent, rfl⟩ :
      s = L.style.lineComment ∨ L.style.commentStyle = .percentComments ∧ s = ['/', '/'] := by
    simpa [LexerStyle.munched] using hs
  · exact read_lineComment h
  · rw [read_eq, scanWith_head h rfl]
    simp [switch, lexSlash, IStream.peek, hpercent]

theorem munched_mark {style : LexerStyle} {s : Text} (hs : s ∈ style.munched.line) :
    ∃ c cs, s = c :: cs ∧ c ≠ '\n' := by
  obtain rfl | ⟨-, rfl⟩ :
      s = style.lineComment ∨ style.commentStyle = .percentComments ∧ s = ['/', '/'] := by
    simpa [LexerStyle.munched] using hs
  · unfold LexerStyle.lineComment
    cases style.commentStyle <;> exact ⟨_, _, rfl, by decide⟩
  · exact ⟨_, _, rfl, by decide⟩

theorem read_comment {g : Gaps Char} {L : Lexer D} (hg : Munches L.style g) {c : Char}
    {cs rest : Text} (h : L.is = ⟨c :: cs, false, false⟩)
    (hcomment : g.afterComment (c :: cs) = some rest) :
    ∃ gap, c :: cs = gap ++ rest ∧ read L = read { L with
      is := ⟨rest, false, false⟩, lineNo_ := L.lineNo_ + gap.countP isnewline } := by
  unfold Gaps.afterComment at hcomment
  split_ifs at hcomment with hline
  · obtain ⟨s, hs, body, hbody⟩ := hline
    have hmunched := hg.line s hs
    obtain ⟨m, ms, rfl, hm⟩ := munched_mark hmunched
    obtain ⟨rfl, rfl⟩ : m = c ∧ ms ++ body = cs := by simpa using hbody
    obtain rfl : ((ms ++ body).dropWhile (· ≠ '\n')).tail = rest := by
      rw [hg.newline, List.dropWhile_cons_of_pos (by simpa using hm)] at hcomment
      simpa using hcomment
    have hread := read_line hmunched (b := body) h
    obtain ⟨gap, hgap, hmunch⟩ := munchLine_dropWhile
      (L := { L with is := ⟨ms ++ body, false, false⟩ }) rfl
    refine ⟨m :: gap, by rw [List.cons_append, ← hgap], ?_⟩
    rw [hread, List.tail_cons, hmunch,
      List.countP_cons_of_neg (by simpa [isnewline] using Ne.symm hm)]
  · obtain ⟨b, hb, hafter⟩ := Option.bind_eq_some_iff.1 hcomment
    split_ifs at hafter with hopening
    obtain ⟨hstyle, rfl⟩ : L.style.commentStyle = .cComments ∧ b = blockComment := by
      rw [hg.block, LexerStyle.gaps] at hb
      split_ifs at hb with hstyle
      exact ⟨hstyle, by simpa [eq_comm] using hb⟩
    obtain ⟨text, htext⟩ := hopening
    obtain ⟨rfl, rfl⟩ : '/' = c ∧ '*' :: text = cs := by simpa [blockComment] using htext
    change after ['*', '/'] text = some rest at hafter
    obtain ⟨body, rfl, hmunch⟩ := munchText_after hafter L.lineNo_
    refine ⟨'/' :: '*' :: body, rfl, ?_⟩
    rw [read_eq, scanWith_head h rfl, List.countP_cons_of_neg (by decide),
      List.countP_cons_of_neg (by decide)]
    simp [switch, lexSlash, IStream.peek, IStream.ignore, munchTillAsterisksSlash, hstyle, hmunch]

/-- **What is skipped.** The newlines skipped are counted, and what follows is read. -/
theorem read_skip {g : Gaps Char} (text : Text) {L : Lexer D} (hg : Munches L.style g)
    (h : L.is = ⟨text, false, false⟩) :
    ∃ gap, text = gap ++ g.skip text ∧ read L = read { L with
      is := ⟨g.skip text, false, false⟩, lineNo_ := L.lineNo_ + gap.countP isnewline } := by
  induction text using g.skip_induct generalizing L with
  | nil => exact ⟨[], by simp, by rw [Gaps.skip_nil, ← h]; rfl⟩
  | space c cs hc ih =>
    rw [hg.space] at hc
    obtain ⟨gap, hgap, hread⟩ := ih (L := { L with
      is := ⟨cs, false, false⟩, lineNo_ := L.lineNo_ + (isnewline c).toNat }) hg rfl
    rw [Gaps.skip_space (by rw [hg.space, hc])]
    refine ⟨c :: gap, by rw [List.cons_append, ← hgap], ?_⟩
    rw [read_space h hc, hread, List.countP_cons, toNat_eq_ite, Nat.add_assoc,
      Nat.add_comm (gap.countP isnewline)]
  | comment c cs rest hc hcomment ih =>
    obtain ⟨body, hbody, hread⟩ := read_comment hg h hcomment
    obtain ⟨gap, hgap, hread'⟩ := ih (L := { L with
      is := ⟨rest, false, false⟩, lineNo_ := L.lineNo_ + body.countP isnewline }) hg rfl
    rw [Gaps.skip_comment hc hcomment]
    refine ⟨body ++ gap, by rw [hbody, List.append_assoc, ← hgap], ?_⟩
    rw [hread, hread', List.countP_append, Nat.add_assoc]
  | stop c cs hc hcomment =>
    rw [Gaps.skip_stop hc hcomment]
    exact ⟨[], rfl, by rw [← h]; rfl⟩

end Nanonet
