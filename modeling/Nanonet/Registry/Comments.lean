import Nanonet.Registry.Spelling

/-!
# Comments, slashes and stars

What `get_token` should do with comments: skip whitespace and the comments of the style, and return
a slash, star, hash or percent character that starts no comment as its own token (`CommentsExact`).
The code does this but for stars and slashes: it returns no star at all, and a slash only at the end
of the text, or before another slash in the hash style (`commentsExact_iff`).
-/

namespace Nanonet

open Lexer

variable {D : Type} [NumGet D] {style : LexerStyle} {filename : String} {input : Text}

/-- The token of a character that starts a comment in some style. -/
def specialToken (c : Char) : Option Token :=
  specialTokens.lookup c

/-- A call skips the whitespace and the documented comments at the head of the text, nothing else;
a slash, star, hash or percent character there is a token of its own, and any other character is
the one that `switch` starts with. -/
def CommentsExact (L : Lexer D) : Prop :=
  match L.style.gaps.skip L.is.rest with
  | [] => ∃ L', getToken L = .ok .END L'
  | c :: cs =>
    match specialToken c with
    | some t => ∃ L', getToken L = .ok t L' ∧ L'.is.rest = cs
    | none => ∃ line, ∀ restart,
        getToken L = switch restart c { L with is := ⟨cs, false, false⟩, lineNo_ := line }

/-- What follows the whitespace and the comments is no star, and if it is a slash then the text ends
there, or the style is the hash style and another slash follows. -/
def SpecialsFit (style : LexerStyle) (text : Text) : Prop :=
  ∀ c cs, style.gaps.skip text = c :: cs →
    c ≠ '*' ∧ (c = '/' → cs = [] ∨ style.commentStyle = .hashComments ∧ cs.head? = some '/')

/-! ### One call -/

omit [NumGet D] in
theorem specialToken_some {c : Char} {t : Token} (h : specialToken c = some t) :
    c = '/' ∧ t = .SLASH ∨ c = '*' ∧ t = .ASTERISKS ∨ c = '#' ∧ t = .HASH ∨
      c = '%' ∧ t = .PERCENT := by
  obtain ⟨_, _, hlist, -⟩ := List.lookup_eq_some_iff.1 h
  have hmem : (c, t) ∈ specialTokens := by rw [hlist]; simp
  simpa [specialTokens] using hmem

omit [NumGet D] in
theorem specialToken_none {c : Char} (h : specialToken c = none) :
    c ≠ '/' ∧ c ≠ '*' ∧ c ≠ '#' ∧ c ≠ '%' := by
  simpa [specialToken, specialTokens] using h

theorem stops_of_gaps {c : Char} {cs : Text} (hspace : isspace c = false)
    (hcomment : style.gaps.afterComment (c :: cs) = none)
    (hpercent : style.commentStyle = .percentComments → ¬ ['/', '/'] <+: c :: cs)
    (hblock : style.commentStyle = .cComments → ¬ ['/', '*'] <+: c :: cs) : Stops style c cs := by
  refine ⟨hspace, ?_, hblock⟩
  have hline : ¬ ∃ s ∈ style.munched.line, s <+: c :: cs := by
    rintro ⟨s, hs, hprefix⟩
    obtain rfl | ⟨hstyle, rfl⟩ :
        s = style.lineComment ∨ style.commentStyle = .percentComments ∧ s = ['/', '/'] := by
      simpa [LexerStyle.munched] using hs
    · rw [Gaps.afterComment_line (by simp [LexerStyle.gaps]) hprefix] at hcomment
      cases hcomment
    · exact hpercent hstyle hprefix
  unfold Gaps.afterComment at hcomment ⊢
  rw [if_neg hline]
  split_ifs at hcomment
  exact hcomment

theorem stops_of_ne_slash {c : Char} {cs : Text} (hc : c ≠ '/') (hspace : isspace c = false)
    (hcomment : style.gaps.afterComment (c :: cs) = none) : Stops style c cs :=
  stops_of_gaps hspace hcomment (fun _ h => hc (List.cons_prefix_cons.1 h).1.symm)
    fun _ h => hc (List.cons_prefix_cons.1 h).1.symm

theorem read_le {L L' : Lexer D} {t : Token} (h : read L = .ok t L') :
    L'.is.rest.length ≤ L.is.rest.length := by
  have hadv := (read_spec L).1
  rw [h] at hadv
  exact hadv.2.2.1

theorem read_slash {L : Lexer D} {cs : Text} (hL : L.is = ⟨'/' :: cs, false, false⟩)
    (hstop : Stops L.style '/' cs) : read L = lexSlash read { L with is := ⟨cs, false, false⟩ } := by
  rw [read_stop hL hstop read]
  simp [switch]

theorem read_percent_slashes {L L' : Lexer D} {t : Token} {cs : Text}
    (hL : L.is = ⟨'/' :: '/' :: cs, false, false⟩) (hstyle : L.style.commentStyle = .percentComments)
    (h : read L = .ok t L') : L'.is.rest.length ≤ cs.length := by
  have hline := read_line (s := ['/', '/']) (by simp [LexerStyle.munched, hstyle]) hL
  obtain ⟨_, _, hmunch⟩ := munchLine_dropWhile
    (L := { L with is := ⟨['/', '/'].tail ++ cs, false, false⟩ }) rfl
  rw [hline, hmunch] at h
  refine (read_le h).trans ?_
  have hdrop := (List.dropWhile_suffix (p := (· ≠ '\n')) (l := cs)).length_le
  simp only [List.tail_cons, List.singleton_append, List.length_tail]
  rw [List.dropWhile_cons_of_pos (by decide)]
  omega

/-- A slash that starts no documented comment is returned as such at the end of the text, and before
another slash in the hash style, and nowhere else. -/
theorem read_slash_iff {L : Lexer D} {cs : Text} (hL : L.is = ⟨'/' :: cs, false, false⟩)
    (hcomment : L.style.gaps.afterComment ('/' :: cs) = none) :
    (∃ L', read L = .ok .SLASH L' ∧ L'.is.rest = cs) ↔
      cs = [] ∨ L.style.commentStyle = .hashComments ∧ cs.head? = some '/' := by
  cases cs with
  | nil =>
    have hstop := stops_of_gaps rfl hcomment (by simp) (by simp)
    rw [read_slash hL hstop]
    simp [lexSlash, IStream.peek, return_]
  | cons d ds =>
    by_cases hpercent : L.style.commentStyle = .percentComments ∧ d = '/'
    · obtain ⟨hstyle, rfl⟩ := hpercent
      refine iff_of_false ?_ (by simp [hstyle])
      rintro ⟨L', hread, hrest⟩
      have hlen := read_percent_slashes hL hstyle hread
      rw [hrest, List.length_cons] at hlen
      omega
    by_cases hblock : L.style.commentStyle = .cComments ∧ d = '*'
    · obtain ⟨hstyle, rfl⟩ := hblock
      have hafter : after ['*', '/'] ds = none := by
        simpa [Gaps.afterComment, LexerStyle.gaps, LexerStyle.lineComment, hstyle, blockComment]
          using hcomment
      obtain ⟨L₁, hread, -⟩ := read_unclosed hstyle hL hafter
      simp [hread, hstyle]
    · have hstop := stops_of_gaps (c := '/') rfl hcomment
        (fun hstyle h => hpercent ⟨hstyle, by simpa [eq_comm] using h⟩)
        (fun hstyle h => hblock ⟨hstyle, by simpa [eq_comm] using h⟩)
      rw [read_slash hL hstop]
      simp only [lexSlash, IStream.peek, IStream.good_mk, if_true]
      by_cases hd : d = '/'
      · subst hd
        have hhash : L.style.commentStyle = .hashComments := by
          cases hstyle : L.style.commentStyle with
          | hashComments => rfl
          | percentComments => exact absurd ⟨hstyle, rfl⟩ hpercent
          | cComments =>
            simp [Gaps.afterComment, LexerStyle.gaps, LexerStyle.lineComment, hstyle] at hcomment
        simp [hhash, return_]
      · by_cases hstar : d = '*'
        · have hne : L.style.commentStyle ≠ .cComments := fun hstyle => hblock ⟨hstyle, hstar⟩
          simp [hstar, hne, return_]
        · simp [hd, hstar, throwHere]

theorem read_special {L : Lexer D} {c : Char} {cs : Text} {t : Token}
    (hL : L.is = ⟨c :: cs, false, false⟩) (ht : specialToken c = some t) (hc : c ≠ '/')
    (hspace : isspace c = false) (hcomment : L.style.gaps.afterComment (c :: cs) = none) :
    (∃ L', read L = .ok t L' ∧ L'.is.rest = cs) ↔ c ≠ '*' := by
  have hstop := stops_of_ne_slash hc hspace hcomment
  obtain ⟨rfl, -⟩ | ⟨rfl, rfl⟩ | hmark := specialToken_some ht
  · exact absurd rfl hc
  · rw [read_stop hL hstop read]
    refine iff_of_false ?_ (not_not.2 rfl)
    rintro ⟨L', h, -⟩
    cases h
  · obtain ⟨L', hread, -, hL'⟩ := read_mark hmark hL hstop
    refine iff_of_true ⟨L', hread, by rw [hL']⟩ ?_
    rintro rfl
    simp at hmark

theorem read_next_iff {L : Lexer D} {c : Char} {cs : Text} (hL : L.is = ⟨c :: cs, false, false⟩)
    (hspace : isspace c = false) (hcomment : L.style.gaps.afterComment (c :: cs) = none) :
    (match specialToken c with
      | some t => ∃ L', read L = .ok t L' ∧ L'.is.rest = cs
      | none => ∃ line, ∀ restart,
        read L = switch restart c { L with is := ⟨cs, false, false⟩, lineNo_ := line }) ↔
      c ≠ '*' ∧ (c = '/' → cs = [] ∨
        L.style.commentStyle = .hashComments ∧ cs.head? = some '/') := by
  cases ht : specialToken c with
  | none =>
    obtain ⟨hslash, hstar, -⟩ := specialToken_none ht
    have hstop := stops_of_ne_slash hslash hspace hcomment
    exact iff_of_true ⟨L.lineNo_, read_stop hL hstop⟩ ⟨hstar, fun h => absurd h hslash⟩
  | some t =>
    by_cases hslash : c = '/'
    · subst hslash
      obtain rfl : Token.SLASH = t := by simpa [specialToken, specialTokens] using ht
      simpa using read_slash_iff hL hcomment
    · simpa [hslash] using read_special hL ht hslash hspace hcomment

theorem commentsExact_of_standing {L : Lexer D} (hL : Standing L L.is.rest) (hold : L.hold = false) :
    CommentsExact L ↔ SpecialsFit L.style L.is.rest := by
  unfold CommentsExact SpecialsFit
  rw [getToken_of_hold hold]
  rcases hL with hL | ⟨hrest, heof⟩
  · obtain ⟨gap, -, hread⟩ := read_skip L.is.rest (munches_gaps L.style) hL
    rw [hread]
    cases hskip : L.style.gaps.skip L.is.rest with
    | nil => exact iff_of_true ⟨_, read_nil rfl⟩ (by simp)
    | cons c cs =>
      obtain ⟨hspace, hcomment⟩ := Gaps.skip_stops hskip
      have hnext := read_next_iff (L := { L with
        is := ⟨c :: cs, false, false⟩, lineNo_ := L.lineNo_ + gap.countP isnewline })
        rfl hspace hcomment
      refine hnext.trans ⟨?_, fun h => h c cs rfl⟩
      rintro h d ds hd
      obtain ⟨rfl, rfl⟩ := List.cons.inj hd
      exact h
  · obtain ⟨L', hread, -⟩ := read_eof heof
    rw [hrest, Gaps.skip_nil]
    simp [hread]

/-- **Comments and special characters.** In every state that a lexer reaches, the next call treats
comments as documented iff no star comes next, and no slash other than at the end of the text or,
in the hash style, before another slash. -/
theorem commentsExact_iff {L : Lexer D} (h : TokenCalls (open_ (.ofText input) filename style) L)
    (hold : L.hold = false) : CommentsExact L ↔ SpecialsFit style L.is.rest := by
  obtain ⟨rfl, hstanding⟩ := h.standing (.inl rfl)
  exact commentsExact_of_standing hstanding hold

/-- In the hash style the next token of the text `#a`, newline, `b` is behind the comment. -/
theorem commentsExact_iff_comment :
    CommentsExact (open_ (.ofText ['#', 'a', '\n', 'b']) "f" {} : Lexer ℕ) := by
  have hcalls : TokenCalls (open_ (.ofText ['#', 'a', '\n', 'b']) "f" {})
      (open_ (.ofText ['#', 'a', '\n', 'b']) "f" {} : Lexer ℕ) := .refl
  refine (commentsExact_iff hcalls rfl).2 ?_
  intro c cs hskip
  have hbehind : ({} : LexerStyle).gaps.skip ['#', 'a', '\n', 'b'] = ['b'] := by
    have hcomment : ({} : LexerStyle).gaps.afterComment ['#', 'a', '\n', 'b'] =
        some ['b'] := by decide
    rw [Gaps.skip_comment rfl hcomment, Gaps.skip_stop rfl (by decide)]
  obtain ⟨rfl, -⟩ := List.cons.inj (hbehind.symm.trans hskip)
  simp

theorem not_commentsExact_opened {c : Char} {cs : Text} (hspace : isspace c = false)
    (hcomment : style.gaps.afterComment (c :: cs) = none)
    (h : ¬ (c ≠ '*' ∧ (c = '/' → cs = [] ∨
      style.commentStyle = .hashComments ∧ cs.head? = some '/'))) :
    ¬ CommentsExact (open_ (.ofText (c :: cs)) "f" style : Lexer D) := by
  intro hexact
  have hfit := (commentsExact_of_standing (.inl rfl) rfl).1 hexact
  exact h (hfit c cs (Gaps.skip_stop hspace hcomment))

/-- A star, a slash before a star in the hash style, and two slashes in the percent style. -/
theorem comments_not_exact :
    ¬ CommentsExact (open_ (.ofText ['*']) "f" {} : Lexer ℕ) ∧
      ¬ CommentsExact (open_ (.ofText ['/', '*']) "f" {} : Lexer ℕ) ∧
      ¬ CommentsExact (open_ (.ofText ['/', '/', 'a']) "f" ⟨.percentComments, .singleQuote⟩ :
        Lexer ℕ) :=
  ⟨not_commentsExact_opened rfl (by decide) (by simp),
    not_commentsExact_opened rfl (by decide) (by simp),
    not_commentsExact_opened rfl (by decide) (by simp)⟩

end Nanonet
