import Nanonet.Registry.Comments

/-!
# Malformed texts in the C comment style

A text is well formed if it is whitespace, complete comments and tokens one after another; a slash
before a star starts a comment, so a `/*` that is never closed is no part of a well formed text. On
any other text some call should throw. It does but for one kind: where an unclosed `/*` follows
tokens that the lexer returns, the calls reach `END` and the rest of the text is lost
(`swallows_nothing_iff`).
-/

namespace Nanonet

open Lexer

variable {D : Type} [NumGet D] {style : LexerStyle}

/-- From the first text to the second stand whitespace, complete comments and the tokens `xs`. -/
inductive Lexed (style : LexerStyle) : Text → List (Lexeme D) → Text → Prop where
  | done (text : Text) : Lexed style text [] text
  | token {text cs rest last : Text} {c : Char} {x : Lexeme D} {xs : List (Lexeme D)} :
      style.gaps.skip text = c :: cs → ¬ ['/', '*'] <+: c :: cs → Spells style (c :: cs) x rest →
      Lexed style rest xs last → Lexed style text (x :: xs) last

/-- Nothing but whitespace, complete comments and the tokens `xs`. -/
def WellFormed (style : LexerStyle) (text : Text) (xs : List (Lexeme D)) : Prop :=
  ∃ rest, Lexed style text xs rest ∧ style.gaps.skip rest = []

/-- The tokens that the lexer does not return in the middle of a text. -/
def Bare (x : Lexeme D) : Prop := x = .punct .SLASH ∨ x = .punct .ASTERISKS

/-- A `/*` that is never closed, after whitespace, complete comments and tokens that are neither a
slash nor a star. -/
def UnclosedComment (D : Type) [NumGet D] (style : LexerStyle) (text : Text) : Prop :=
  ∃ (xs : List (Lexeme D)) (rest body : Text), Lexed style text xs rest ∧ (∀ x ∈ xs, ¬ Bare x) ∧
    style.gaps.skip rest = '/' :: '*' :: body ∧ ¬ ['*', '/'] <:+: body

/-! ### One token -/

theorem munched_eq_gaps (hstyle : style.commentStyle = .cComments) : style.munched = style.gaps := by
  simp [LexerStyle.munched, LexerStyle.gaps, hstyle]

theorem stops_of_skip {text cs : Text} {c : Char} (hstyle : style.commentStyle = .cComments)
    (hskip : style.gaps.skip text = c :: cs) (hblock : ¬ ['/', '*'] <+: c :: cs) :
    Stops style c cs := by
  obtain ⟨hspace, hcomment⟩ := Gaps.skip_stops hskip
  exact ⟨hspace, by rw [munched_eq_gaps hstyle]; exact hcomment, fun _ => hblock⟩

theorem read_spells {L : Lexer D} {text rest : Text} {x : Lexeme D}
    (hL : L.is = ⟨text, false, false⟩) (hstop : ∀ c cs, text = c :: cs → Stops L.style c cs)
    (h : Spells L.style text x rest) (hx : ¬ Bare x) :
    ∃ L', read L = .ok x.token L' ∧ L'.lexeme = x ∧ Standing L' rest := by
  cases h with
  | ident hc hcs hrest => exact read_ident hc hcs hrest hL
  | string hbody => exact read_string hbody hL
  | num hc hextract => exact read_num hc hextract hL
  | punct hct => exact read_punct hct hL
  | special hct =>
    simp only [specialTokens, List.mem_cons, Prod.mk.injEq, List.not_mem_nil, or_false] at hct
    obtain ⟨rfl, rfl⟩ | ⟨rfl, rfl⟩ | hmark := hct
    · exact absurd (.inl rfl) hx
    · exact absurd (.inr rfl) hx
    · obtain ⟨L', hread, hlexeme, hL'⟩ := read_mark hmark hL (hstop _ _ rfl)
      exact ⟨L', hread, hlexeme, .inl hL'⟩

omit [NumGet D] in
theorem not_start_special {c : Char} {t u : Token} (ht : (c, t) ∈ specialTokens) :
    isalpha c = false ∧ (isdigit c || c == '.' || c == '+' || c == '-') = false ∧
      (∀ style : LexerStyle, style.quoteChar ≠ c) ∧ (c, u) ∉ punctTokens ∧
      ((c, u) ∈ specialTokens → u = t) := by
  have hquote : ∀ style : LexerStyle, style.quoteChar ≠ c := by
    intro style
    rcases quoteChar_cases style with h | h <;> rw [h] <;> rintro rfl <;>
      simp [specialTokens] at ht
  simp only [specialTokens, List.mem_cons, Prod.mk.injEq, List.not_mem_nil, or_false] at ht
  refine ⟨?_, ?_, hquote, ?_⟩ <;>
    rcases ht with ⟨rfl, rfl⟩ | ⟨rfl, rfl⟩ | ⟨rfl, rfl⟩ | ⟨rfl, rfl⟩ <;>
    simp [punctTokens, specialTokens, isalpha, isdigit]

theorem spells_special {c : Char} {cs rest : Text} {t : Token} {x : Lexeme D}
    (ht : (c, t) ∈ specialTokens) (h : Spells style (c :: cs) x rest) :
    x = .punct t ∧ rest = cs := by
  obtain ⟨halpha, hnum, hquote, -⟩ := not_start_special (u := t) ht
  generalize htext : c :: cs = text at h
  cases h with
  | ident hc =>
    obtain ⟨rfl, -⟩ := List.cons.inj htext
    simp [halpha] at hc
  | string => exact absurd (List.cons.inj htext).1.symm (hquote style)
  | num hc =>
    obtain ⟨rfl, -⟩ := List.cons.inj htext
    simp [hnum] at hc
  | punct hmem =>
    obtain ⟨rfl, rfl⟩ := List.cons.inj htext
    exact absurd hmem (not_start_special ht).2.2.2.1
  | special hmem =>
    obtain ⟨rfl, rfl⟩ := List.cons.inj htext
    exact ⟨congrArg _ ((not_start_special ht).2.2.2.2 hmem), rfl⟩

omit [NumGet D] in
theorem Standing.unique {L : Lexer D} {text text' : Text} (h : Standing L text)
    (h' : Standing L text') : text = text' := by
  rcases h with h | ⟨rfl, h⟩ <;> rcases h' with h' | ⟨rfl, h'⟩
  · simpa using h.symm.trans h'
  · simp [h] at h'
  · simp [h'] at h
  · rfl

theorem Spells.bare {text rest : Text} {x : Lexeme D} (h : Spells style text x rest) (hx : Bare x) :
    ∃ c t, (c, t) ∈ specialTokens ∧ x = .punct t ∧ text = c :: rest ∧ (c = '/' ∨ c = '*') := by
  obtain rfl | rfl := hx
  · cases h with
    | punct hmem => simp [punctTokens] at hmem
    | @special c t rest hmem =>
      refine ⟨c, _, hmem, rfl, rfl, .inl ?_⟩
      simpa [specialTokens] using hmem
  · cases h with
    | punct hmem => simp [punctTokens] at hmem
    | @special c t rest hmem =>
      refine ⟨c, _, hmem, rfl, rfl, .inr ?_⟩
      simpa [specialTokens] using hmem

theorem spells_unique {c : Char} {cs rest rest' : Text} {x y : Lexeme D} (hstop : Stops style c cs)
    (hx : Spells style (c :: cs) x rest) (hbare : ¬ Bare x) (hy : Spells style (c :: cs) y rest') :
    x = y ∧ rest = rest' := by
  by_cases hy' : Bare y
  · obtain ⟨d, t, hmem, rfl, htext, -⟩ := hy.bare hy'
    obtain ⟨rfl, rfl⟩ := List.cons.inj htext
    exact spells_special hmem hx
  · have hstops : ∀ d ds, c :: cs = d :: ds → Stops style d ds := by
      intro d ds htext
      obtain ⟨rfl, rfl⟩ := List.cons.inj htext
      exact hstop
    obtain ⟨L, hread, rfl, hL⟩ := read_spells (L := open_ (.ofText (c :: cs)) "" style) rfl hstops
      hx hbare
    obtain ⟨L', hread', rfl, hL'⟩ := read_spells (L := open_ (.ofText (c :: cs)) "" style) rfl hstops
      hy hy'
    obtain ⟨-, rfl⟩ := EStateM.Result.ok.inj (hread.symm.trans hread')
    exact ⟨rfl, hL.unique hL'⟩

theorem bare_at_end {L L' : Lexer D} {c : Char} {cs : Text} {t : Token}
    (hstyle : L.style.commentStyle = .cComments) (hL : L.is = ⟨c :: cs, false, false⟩)
    (hcomment : L.style.gaps.afterComment (c :: cs) = none) (h : read L = .ok t L')
    (hspells : Spells L.style (c :: cs) L'.lexeme L'.is.rest) (hbare : Bare L'.lexeme) :
    L'.is.rest = [] := by
  have hcurrent : t = L'.lexeme.token := by rw [token_lexeme, (read_frame h).2.2]
  obtain ⟨d, t', hmem, hx, htext, hd⟩ := hspells.bare hbare
  obtain ⟨rfl, rfl⟩ := List.cons.inj htext
  rw [hx] at hcurrent
  subst hcurrent
  rcases hd with rfl | rfl
  · obtain rfl : t = .SLASH := by simpa [specialTokens] using hmem
    have hslash := (read_slash_iff hL hcomment).1 ⟨L', h, rfl⟩
    simpa [hstyle] using hslash
  · obtain rfl : t = .ASTERISKS := by simpa [specialTokens] using hmem
    exact absurd rfl ((read_special hL rfl (by decide) rfl hcomment).1 ⟨L', h, rfl⟩)

/-! ### The whole text -/

theorem finished_cases {L : Lexer D} (hstyle : L.style.commentStyle = .cComments)
    (hold : L.hold = false) (hL : Standing L L.is.rest) (hend : L.tokens.ending = .finished) :
    (∃ xs : List (Lexeme D), WellFormed L.style L.is.rest xs) ∨
      UnclosedComment D L.style L.is.rest := by
  induction hn : L.is.rest.length using Nat.strong_induction_on generalizing L with
  | _ n ih =>
    subst hn
    cases hread : read L with
    | error e L' => simp [tokens_eq hold, hread] at hend
    | ok t L' =>
      have hframe := read_frame hread
      cases read_ok hL hread with
      | finished hskip =>
        rw [munched_eq_gaps hstyle] at hskip
        exact .inl ⟨[], _, .done _, hskip⟩
      | @unclosed _ body _ hskip hafter =>
        rw [munched_eq_gaps hstyle] at hskip
        exact .inr ⟨[], _, body, .done _, by simp, hskip, after_eq_none.1 hafter⟩
      | @token _ _ gap cs c hskip hgap hne hstop htoken =>
        rw [munched_eq_gaps hstyle] at hskip
        rw [tokens_of_read hold hread hne] at hend
        have hlt := (read_spec L).2 t L' hread hne
        have hstyle' : L'.style = L.style := hframe.1
        have hspells : Spells L.style (c :: cs) L'.lexeme L'.is.rest :=
          htoken.spells.resolve_right fun hstar => hstar.1 hstyle
        have hblock := hstop.block hstyle
        obtain ⟨xs, rest, hlexed, hrest⟩ | ⟨xs, rest, body, hlexed, hxs, hrest, hbody⟩ :=
          ih _ hlt (hstyle'.symm ▸ hstyle) (hframe.2.1.trans hold) htoken.standing hend rfl
        · rw [hstyle'] at hlexed hrest
          exact .inl ⟨_ :: xs, rest, .token hskip hblock hspells hlexed, hrest⟩
        · rw [hstyle'] at hlexed hrest
          refine .inr ⟨_ :: xs, rest, body, .token hskip hblock hspells hlexed, ?_, hrest, hbody⟩
          refine List.forall_mem_cons.2 ⟨fun hbare => ?_, hxs⟩
          -- nothing follows a slash that the lexer returned
          obtain ⟨gap', -, hread'⟩ := read_skip L.is.rest (munches_gaps L.style)
            (hL.good (by simp [hgap]))
          rw [hread', hskip] at hread
          have hnil := bare_at_end (L := { L with
            is := ⟨c :: cs, false, false⟩, lineNo_ := L.lineNo_ + gap'.countP isnewline })
            hstyle rfl (Gaps.skip_stops hskip).2 hread hspells hbare
          rw [hnil] at hlexed
          cases hlexed with
          | done => simp at hrest
          | token hskip _ _ _ => simp at hskip

theorem finished_of_unclosed {text rest body : Text} {xs : List (Lexeme D)}
    (hstyle : style.commentStyle = .cComments) (h : Lexed style text xs rest)
    (hxs : ∀ x ∈ xs, ¬ Bare x) (hrest : style.gaps.skip rest = '/' :: '*' :: body) {L : Lexer D}
    (hL : Standing L text) (hLstyle : L.style = style) (hold : L.hold = false) :
    L.tokens.ending = .finished := by
  induction h generalizing L with
  | done text =>
    subst hLstyle
    obtain ⟨gap, -, hread⟩ := read_skip text (munches_gaps L.style)
      (hL.good (by rintro rfl; simp at hrest))
    have hafter := after_of_skip hstyle (munched_eq_gaps hstyle ▸ hrest)
    obtain ⟨L', hread', -⟩ := read_unclosed (L := { L with
      is := ⟨'/' :: '*' :: body, false, false⟩
      lineNo_ := L.lineNo_ + gap.countP isnewline }) hstyle rfl hafter
    rw [hrest] at hread
    rw [tokens_of_END hold (hread.trans hread')]
  | @token text cs rest' _ c x xs hskip hblock hspells _ ih =>
    subst hLstyle
    obtain ⟨gap, -, hread⟩ := read_skip text (munches_gaps L.style)
      (hL.good (by rintro rfl; simp at hskip))
    have hstop := stops_of_skip hstyle hskip hblock
    obtain ⟨L', hread', rfl, hL'⟩ := read_spells (L := { L with
      is := ⟨c :: cs, false, false⟩, lineNo_ := L.lineNo_ + gap.countP isnewline }) rfl
      (fun d ds htext => by
        obtain ⟨rfl, rfl⟩ := List.cons.inj htext
        exact hstop) hspells (hxs x (by simp))
    rw [hskip] at hread
    have hframe := read_frame (hread.trans hread')
    rw [tokens_of_read hold (hread.trans hread') hspells.token_ne_END]
    exact ih (fun y hy => hxs y (by simp [hy])) hrest hL' hframe.1 (hframe.2.1.trans hold)

theorem not_wellFormed_of_unclosed {text rest body : Text} {xs : List (Lexeme D)}
    (hstyle : style.commentStyle = .cComments) (h : Lexed style text xs rest)
    (hxs : ∀ x ∈ xs, ¬ Bare x) (hrest : style.gaps.skip rest = '/' :: '*' :: body) :
    ¬ ∃ ys : List (Lexeme D), WellFormed style text ys := by
  rintro ⟨ys, last, hys, hlast⟩
  induction h generalizing ys with
  | done text =>
    cases hys with
    | done => simp [hlast] at hrest
    | token hskip hblock _ _ =>
      obtain ⟨rfl, rfl⟩ := List.cons.inj (hskip.symm.trans hrest)
      exact hblock (by simp)
  | @token text cs rest' _ c x xs hskip hblock hspells _ ih =>
    cases hys with
    | done => simp [hlast] at hskip
    | token hskip' _ hspells' hys' =>
      obtain ⟨rfl, rfl⟩ := List.cons.inj (hskip'.symm.trans hskip)
      have hstop := stops_of_skip hstyle hskip hblock
      obtain ⟨rfl, rfl⟩ := spells_unique hstop hspells (hxs x (by simp)) hspells'
      exact ih (fun y hy => hxs y (by simp [hy])) hrest _ hys'

/-- **Malformed texts.** In the C comment style, calls that reach `END` have read a well formed text
and every other text makes some call throw, unless the text has an unclosed comment after tokens
that the lexer returns. -/
theorem swallows_nothing_iff (input : Text) (filename : String) (quote : StringQuoteStyle) :
    let style : LexerStyle := ⟨.cComments, quote⟩
    let L : Lexer D := open_ (.ofText input) filename style
    let wellFormed : Prop := ∃ xs : List (Lexeme D), WellFormed style input xs
    (L.tokens.ending = .finished → wellFormed) ∧
        (¬ wellFormed → ∃ e, L.tokens.ending = .thrown e) ↔
      ¬ UnclosedComment D style input := by
  intro style L wellFormed
  constructor
  · rintro ⟨hfinished, -⟩ ⟨xs, rest, body, hlexed, hxs, hrest, -⟩
    have hend := finished_of_unclosed (L := L) rfl hlexed hxs hrest (.inl rfl) rfl rfl
    exact not_wellFormed_of_unclosed rfl hlexed hxs hrest (hfinished hend)
  · intro hclosed
    have hfinished : L.tokens.ending = .finished → wellFormed := fun hend =>
      (finished_cases (L := L) rfl rfl (.inl rfl) hend).resolve_right hclosed
    refine ⟨hfinished, fun hnot => ?_⟩
    cases hend : L.tokens.ending with
    | finished => exact absurd (hfinished hend) hnot
    | thrown e => exact ⟨e, rfl⟩

/-- `/*a=1` reaches `END`: the definition is lost, and no call throws. -/
theorem unclosed_swallowed :
    (open_ (.ofText ['/', '*', 'a', '=', '1']) "f" ⟨.cComments, .doubleQuote⟩ :
        Lexer ℕ).tokens.ending = .finished ∧
      ¬ ∃ xs : List (Lexeme ℕ),
        WellFormed ⟨.cComments, .doubleQuote⟩ ['/', '*', 'a', '=', '1'] xs := by
  have hskip : (⟨.cComments, .doubleQuote⟩ : LexerStyle).gaps.skip ['/', '*', 'a', '=', '1'] =
      '/' :: '*' :: ['a', '=', '1'] := Gaps.skip_stop rfl (by decide)
  exact ⟨finished_of_unclosed rfl (.done _) (by simp) hskip (.inl rfl) rfl rfl,
    not_wellFormed_of_unclosed rfl (.done _) (by simp) hskip⟩

end Nanonet
