import Nanonet.Registry.Gaps
import Nanonet.Registry.LexRendered

/-!
# Tokens and their texts

`Spells` says what the text of each kind of token is, with the text that follows it present, so that
an identifier ends where no more of it follows. `read_stop` is the read from where nothing can be
skipped: it never jumps back to `restart`, and what it returns is spelled by the text there
(`read_token`), but for the asterisk token that two of the styles return at `/*`.
-/

namespace Nanonet

open Lexer

variable {D : Type} [NumGet D] {style : LexerStyle}

/-- The characters that stand for themselves in every style. -/
def punctTokens : List (Char × Token) :=
  [('(', .LP), (')', .RP), ('{', .LB), ('}', .RB), ('[', .LBRACKET), (']', .RBRACKET),
    (',', .COMMA), ('=', .ASSIGN)]

/-- The characters that start a comment in some style, and stand for themselves elsewhere. -/
def specialTokens : List (Char × Token) :=
  [('/', .SLASH), ('*', .ASTERISKS), ('#', .HASH), ('%', .PERCENT)]

/-- The first of these texts spells the token, and the second follows it. -/
inductive Spells (style : LexerStyle) : Text → Lexeme D → Text → Prop where
  | ident {c : Char} {cs rest : Text} : isalpha c = true →
      (∀ d ∈ cs, (isalnum d || d == '_') = true) →
      (∀ d ∈ rest.head?, (isalnum d || d == '_') = false) →
      Spells style (c :: (cs ++ rest)) (.ident (c :: cs)) rest
  | string {body value rest : Text} : Quoted style.quoteChar body value →
      Spells style (style.quoteChar :: (body ++ style.quoteChar :: rest)) (.string value) rest
  | num {c : Char} {cs rest : Text} {d : D} :
      (isdigit c || c == '.' || c == '+' || c == '-') = true →
      NumGet.extract (c :: cs) = (some d, rest) → Spells style (c :: cs) (.num d) rest
  | punct {c : Char} {t : Token} {rest : Text} : (c, t) ∈ punctTokens →
      Spells style (c :: rest) (.punct t) rest
  | special {c : Char} {t : Token} {rest : Text} : (c, t) ∈ specialTokens →
      Spells style (c :: rest) (.punct t) rest

/-! ### Where nothing can be skipped -/

/-- Neither whitespace nor a comment starts here, closed or not. -/
structure Stops (style : LexerStyle) (c : Char) (cs : Text) : Prop where
  space : isspace c = false
  comment : style.munched.afterComment (c :: cs) = none
  block : style.commentStyle = .cComments → ¬ ['/', '*'] <+: c :: cs

omit [NumGet D] in
theorem Stops.not_mark {c : Char} {cs s : Text} (h : Stops style c cs)
    (hs : s ∈ style.munched.line) : ¬ s <+: c :: cs := by
  intro hprefix
  have hcomment := h.comment
  rw [Gaps.afterComment_line hs hprefix] at hcomment
  cases hcomment

omit [NumGet D] in
theorem Stops.commentChar {c : Char} {cs : Text} (h : Stops style c cs) :
    style.commentStyle = .cComments ∨ style.commentChar ≠ c := by
  by_contra hnot
  obtain ⟨hne, rfl⟩ : style.commentStyle ≠ .cComments ∧ style.commentChar = c := by
    simpa using hnot
  refine h.not_mark (s := style.lineComment) (by simp [LexerStyle.munched]) ?_
  unfold LexerStyle.lineComment LexerStyle.commentChar
  cases hstyle : style.commentStyle with
  | cComments => exact absurd hstyle hne
  | hashComments => simp
  | percentComments => simp

omit [NumGet D] in
theorem lexSlash_stop {restart restart' : LexM D Token} {L : Lexer D} {cs : Text}
    (hL : L.is = ⟨cs, false, false⟩) (h : Stops L.style '/' cs) :
    lexSlash restart L = lexSlash restart' L := by
  cases cs with
  | nil => simp [lexSlash, hL, IStream.peek]
  | cons d ds =>
    have hline : d = '/' → L.style.commentStyle = .hashComments := by
      rintro rfl
      by_contra hne
      refine h.not_mark (s := ['/', '/']) ?_ (by simp)
      cases hstyle : L.style.commentStyle <;>
        simp_all [LexerStyle.munched, LexerStyle.lineComment]
    have hblock : d = '*' → L.style.commentStyle ≠ .cComments := by
      rintro rfl hstyle
      exact h.block hstyle (by simp)
    simp only [lexSlash, hL, IStream.peek, IStream.good_mk, if_true]
    split_ifs with hd hhash hd' hc
    all_goals first | rfl | exact absurd (hline hd) hhash | exact absurd (hblock hd') hc

theorem switch_stop {restart restart' : LexM D Token} {L : Lexer D} {c : Char} {cs : Text}
    (hL : L.is = ⟨cs, false, false⟩) (h : Stops L.style c cs) :
    switch restart c L = switch restart' c L := by
  unfold switch
  split_ifs with hhash hstyle hslash
  all_goals first | rfl | skip
  · exact absurd hstyle (not_not.2 h.commentChar)
  · exact lexSlash_stop hL (hslash ▸ h)

theorem read_stop {L : Lexer D} {c : Char} {cs : Text} (hL : L.is = ⟨c :: cs, false, false⟩)
    (h : Stops L.style c cs) (restart : LexM D Token) :
    read L = switch restart c { L with is := ⟨cs, false, false⟩ } := by
  rw [read_eq, scanWith_head hL h.space]
  exact switch_stop rfl h

/-- A hash or percent character that starts no comment is a token of its own. -/
theorem read_mark {L : Lexer D} {c : Char} {cs : Text} {t : Token}
    (hct : c = '#' ∧ t = .HASH ∨ c = '%' ∧ t = .PERCENT) (hL : L.is = ⟨c :: cs, false, false⟩)
    (h : Stops L.style c cs) :
    ∃ L', read L = .ok t L' ∧ L'.lexeme = .punct t ∧ L'.is = ⟨cs, false, false⟩ := by
  rw [read_stop hL h read]
  obtain ⟨rfl, rfl⟩ | ⟨rfl, rfl⟩ := hct
  · exact ⟨_, by rw [switch, if_pos (.inl rfl), if_pos h.commentChar]; rfl, rfl, rfl⟩
  · exact ⟨_, by rw [switch, if_pos (.inr rfl), if_pos h.commentChar]; rfl, rfl, rfl⟩

theorem read_unclosed {L : Lexer D} {body : Text} (hstyle : L.style.commentStyle = .cComments)
    (hL : L.is = ⟨'/' :: '*' :: body, false, false⟩) (hbody : after ['*', '/'] body = none) :
    ∃ L', read L = .ok .END L' ∧ L'.is.rest = [] ∧ L'.is.eofbit = true := by
  obtain ⟨failbit, n, hmunch⟩ := munchText_unclosed hbody L.lineNo_
  have hread : read L = read { L with is := ⟨[], true, failbit⟩, lineNo_ := n } := by
    rw [read_eq, scanWith_head hL rfl]
    simp [switch, lexSlash, IStream.peek, IStream.ignore, munchTillAsterisksSlash, hstyle, hmunch]
  rw [hread, read_eq]
  exact ⟨_, rfl, rfl, rfl⟩

/-! ### The token that is read -/

omit [NumGet D] in
theorem stringBody_ok {quote : Char} {text value : Text} {is : IStream}
    (h : stringBody quote text = (value, none, is)) :
    ∃ body, text = body ++ quote :: is.rest ∧ Quoted quote body value ∧
      is = ⟨is.rest, false, false⟩ := by
  induction text using stringBody.induct quote generalizing value with
  | case1 => simp [stringBody.eq_def] at h
  | case2 c cs hc => simp [stringBody.eq_def _ (c :: cs), hc] at h
  | case3 cs hc =>
    obtain ⟨rfl, rfl⟩ : value = [] ∧ ⟨cs, false, false⟩ = is := by
      simpa [stringBody.eq_def _ (quote :: cs), hc, eq_comm] using h
    exact ⟨[], rfl, .nil, rfl⟩
  | case4 hnewline hquote => simp [stringBody.eq_def _ ['\\'], hnewline, hquote] at h
  | case5 cc ds hcc hnewline hquote =>
    simp [stringBody.eq_def _ ('\\' :: cc :: ds), hnewline, hquote, hcc] at h
  | case6 cc ds hcc _ hquote ih =>
    have hescape : quote = cc ∨ 'n' = cc ∨ '\\' = cc := by tauto
    rw [stringBody_escape (Ne.symm hquote) hescape] at h
    obtain ⟨rfl, hrest⟩ := Prod.mk.inj h
    obtain ⟨body, rfl, hquoted, his⟩ := ih (Prod.ext rfl hrest)
    refine ⟨'\\' :: cc :: body, rfl, ?_, his⟩
    split_ifs with hq hn
    · exact hq ▸ hquoted.quote
    · exact hn ▸ hquoted.newline
    · obtain rfl : '\\' = cc := (hescape.resolve_left hq).resolve_left hn
      exact hquoted.backslash
  | case7 c cs hnewline hquote hbackslash ih =>
    rw [stringBody_plain (by simpa using hnewline) hquote hbackslash] at h
    obtain ⟨rfl, hrest⟩ := Prod.mk.inj h
    obtain ⟨body, rfl, hquoted, his⟩ := ih (Prod.ext rfl hrest)
    refine ⟨c :: body, rfl, .plain hquote hbackslash ?_ hquoted, his⟩
    rintro rfl
    exact hnewline rfl

/-- Two of the styles return an asterisk for the slash of `/*`. -/
def StarredSlash (style : LexerStyle) (text : Text) (x : Lexeme D) (rest : Text) : Prop :=
  style.commentStyle ≠ .cComments ∧ x = .punct .ASTERISKS ∧ text = '/' :: rest ∧
    rest.head? = some '*'

/-- The first of these texts starts with what the lexer reads as the token. -/
def TokenText (style : LexerStyle) (text : Text) (x : Lexeme D) (rest : Text) : Prop :=
  Spells style text x rest ∨ StarredSlash style text x rest

/-- What a token read from `text` leaves behind: the lexer's line is still the line the token starts
on. -/
structure TokenRead (text : Text) (L L' : Lexer D) : Prop where
  line : L'.lineNo_ = L.lineNo_
  standing : Standing L' L'.is.rest
  spells : TokenText L.style text L'.lexeme L'.is.rest

section branches

variable {L L' : Lexer D} {c : Char} {cs : Text} {t : Token}

theorem charToken_mem (h : charToken c = some t) : (c, t) ∈ punctTokens ++ specialTokens := by
  unfold charToken at h
  split at h <;> simp_all [punctTokens, specialTokens]

omit [NumGet D] in
theorem lexeme_of_charToken (h : charToken c = some t) :
    lexeme { L with currentToken_ := t } = .punct t := by
  have hmem := charToken_mem h
  simp only [punctTokens, specialTokens, List.cons_append, List.nil_append, List.mem_cons,
    Prod.mk.injEq, List.not_mem_nil, or_false] at hmem
  rcases hmem with ⟨-, rfl⟩ | ⟨-, rfl⟩ | ⟨-, rfl⟩ | ⟨-, rfl⟩ | ⟨-, rfl⟩ | ⟨-, rfl⟩ | ⟨-, rfl⟩ |
    ⟨-, rfl⟩ | ⟨-, rfl⟩ | ⟨-, rfl⟩ | ⟨-, rfl⟩ | ⟨-, rfl⟩ <;> rfl

theorem tokenRead_returnChar (hL : L.is = ⟨cs, false, false⟩) (h : returnChar c L = .ok t L') :
    TokenRead (c :: cs) L L' := by
  unfold returnChar at h
  split at h
  · next t' ht =>
    obtain ⟨rfl, rfl⟩ : t' = t ∧ { L with currentToken_ := t' } = L' := by
      simpa [return_] using h
    refine ⟨rfl, .inl (by simp [hL]), .inl ?_⟩
    rw [lexeme_of_charToken ht, show L.is.rest = cs by rw [hL]]
    rcases List.mem_append.1 (charToken_mem ht) with hpunct | hspecial
    · exact .punct hpunct
    · exact .special hspecial
  · simp at h

theorem tokenRead_lexSlash {restart : LexM D Token} (hL : L.is = ⟨cs, false, false⟩)
    (hstop : Stops L.style '/' cs) (h : lexSlash restart L = .ok t L') :
    TokenRead ('/' :: cs) L L' := by
  unfold lexSlash at h
  cases cs with
  | nil =>
    obtain ⟨-, rfl⟩ : Token.SLASH = t ∧ _ = L' := by simpa [hL, IStream.peek, return_] using h
    exact ⟨rfl, .inr ⟨rfl, rfl⟩, .inl (.special (by simp [specialTokens]))⟩
  | cons d ds =>
    simp only [hL, IStream.peek, IStream.good_mk, if_true] at h
    split_ifs at h with hd hhash hd' hc
    · obtain ⟨-, rfl⟩ : Token.SLASH = t ∧ _ = L' := by simpa [return_] using h
      exact ⟨rfl, .inl rfl, .inl (.special (by simp [specialTokens]))⟩
    · subst hd
      refine absurd (by simp) (hstop.not_mark (s := ['/', '/']) ?_)
      cases hstyle : L.style.commentStyle <;>
        simp_all [LexerStyle.munched, LexerStyle.lineComment]
    · obtain ⟨-, rfl⟩ : Token.ASTERISKS = t ∧ _ = L' := by simpa [return_] using h
      exact ⟨rfl, .inl rfl, .inr ⟨hc, rfl, rfl, by simp [hd']⟩⟩
    · subst hd'
      exact absurd (by simp) (hstop.block (by simpa using hc))
    · simp [throwHere] at h

theorem tokenRead_lexString (hL : L.is = ⟨cs, false, false⟩) (h : lexString L = .ok t L') :
    TokenRead (L.style.quoteChar :: cs) L L' := by
  unfold lexString at h
  rcases hbody : stringBody L.style.quoteChar L.is.rest with ⟨value, _ | message, is⟩
  · obtain ⟨-, rfl⟩ : Token.STRING = t ∧ _ = L' := by simpa [hbody, return_] using h
    rw [hL] at hbody
    obtain ⟨body, rfl, hquoted, his⟩ := stringBody_ok hbody
    exact ⟨rfl, .inl his, .inl (.string hquoted)⟩
  · simp [hbody, throwHere] at h

theorem tokenRead_lexNumber (hL : L.is = ⟨cs, false, false⟩) (hspace : isspace c = false)
    (hc : (isdigit c || c == '.' || c == '+' || c == '-') = true) (h : lexNumber c L = .ok t L') :
    TokenRead (c :: cs) L L' := by
  unfold lexNumber at h
  simp only [hL, IStream.putback, Bool.false_eq_true, if_false, IStream.readDouble,
    IStream.good_mk, if_true, List.dropWhile_cons, hspace] at h
  rcases hextract : NumGet.extract (D := D) (c :: cs) with ⟨_ | d, rest⟩
  · simp [hextract, throwHere] at h
  · obtain ⟨-, rfl⟩ : Token.NUM = t ∧ _ = L' := by simpa [hextract, return_] using h
    refine ⟨rfl, ?_, .inl (.num hc hextract)⟩
    cases rest with
    | nil => exact .inr ⟨rfl, rfl⟩
    | cons d ds => exact .inl rfl

theorem tokenRead_lexIdent (hL : L.is = ⟨cs, false, false⟩) (hc : isalpha c = true)
    (h : lexIdent c L = .ok t L') : TokenRead (c :: cs) L L' := by
  unfold lexIdent at h
  rcases hspan : IStream.span (fun c => isalnum c || c == '_') cs with ⟨xs, stop, rest⟩
  obtain ⟨rfl, hxs, hstop, hnone⟩ := IStream.span_spec hspan
  cases stop with
  | none =>
    obtain rfl := hnone rfl
    have hloop := IStream.getWhile_all hxs
    simp only [Option.toList_none, List.append_nil] at hL ⊢
    simp only [hL, hloop, return_, EStateM.Result.ok.injEq] at h
    obtain ⟨-, rfl⟩ := h
    have hspells : Spells (D := D) L.style (c :: (xs ++ [])) (.ident (c :: xs)) [] :=
      .ident hc hxs (by simp)
    rw [List.append_nil] at hspells
    exact ⟨rfl, .inr ⟨rfl, rfl⟩, .inl hspells⟩
  | some d =>
    have hloop := IStream.getWhile_append hxs (hstop d rfl) rest
    simp only [Option.toList_some, List.singleton_append] at hL ⊢
    simp only [hL, hloop, return_, IStream.putback, EStateM.Result.ok.injEq] at h
    obtain ⟨-, rfl⟩ := h
    exact ⟨rfl, .inl rfl, .inl (.ident hc hxs (by simpa using hstop d rfl))⟩

theorem tokenRead_switch {restart : LexM D Token} (hL : L.is = ⟨cs, false, false⟩)
    (hstop : Stops L.style c cs) (h : switch restart c L = .ok t L') : TokenRead (c :: cs) L L' := by
  unfold switch at h
  split_ifs at h with hhash hstyle hslash hpunct hquote hother hnum halpha
  · exact tokenRead_returnChar hL h
  · exact absurd hstyle (not_not.2 hstop.commentChar)
  · exact hslash ▸ tokenRead_lexSlash hL (hslash ▸ hstop) h
  · exact tokenRead_returnChar hL h
  · exact tokenRead_returnChar hL h
  · obtain rfl : L.style.quoteChar = c := by simpa using hother
    exact tokenRead_lexString hL h
  · exact tokenRead_lexNumber hL hstop.space hnum h
  · exact tokenRead_lexIdent hL halpha h
  · cases h

end branches

/-- **The token that is read.** Where nothing can be skipped, what `get_token` returns is spelled by
the text that starts there. -/
theorem read_token {L L' : Lexer D} {c : Char} {cs : Text} {t : Token}
    (hL : L.is = ⟨c :: cs, false, false⟩) (hstop : Stops L.style c cs) (h : read L = .ok t L') :
    TokenRead (c :: cs) L L' := by
  rw [read_stop hL hstop read] at h
  have hread := tokenRead_switch (L := { L with is := ⟨cs, false, false⟩ }) rfl hstop h
  exact ⟨hread.line, hread.standing, hread.spells⟩

omit [NumGet D] in
theorem mem_tokens_ne_END {c : Char} {t : Token} (h : (c, t) ∈ punctTokens ++ specialTokens) :
    t ≠ .END := by
  rintro rfl
  simp [punctTokens, specialTokens] at h

theorem Spells.token_ne_END {text rest : Text} {x : Lexeme D} (h : Spells style text x rest) :
    x.token ≠ .END := by
  cases h with
  | punct hmem => exact mem_tokens_ne_END (List.mem_append_left _ hmem)
  | special hmem => exact mem_tokens_ne_END (List.mem_append_right _ hmem)
  | _ => simp [Lexeme.token]

theorem TokenRead.token_ne_END {L L' : Lexer D} {text : Text} (h : TokenRead text L L') :
    L'.currentToken_ ≠ .END := by
  rw [← token_lexeme]
  rcases h.spells with hspells | ⟨-, hstar, -⟩
  · exact hspells.token_ne_END
  · rw [hstar]
    simp [Lexeme.token]

/-- Everything that a call which returns can have read. -/
inductive ReadOk (L : Lexer D) : Token → Lexer D → Prop where
  | finished {L' : Lexer D} : L.style.munched.skip L.is.rest = [] → L'.is.rest = [] →
      L'.is.eofbit = true → ReadOk L .END L'
  | unclosed {L' : Lexer D} {body : Text} : L.style.commentStyle = .cComments →
      L.style.munched.skip L.is.rest = '/' :: '*' :: body → after ['*', '/'] body = none →
      L'.is.rest = [] → L'.is.eofbit = true → ReadOk L .END L'
  | token {L' : Lexer D} {t : Token} {gap cs : Text} {c : Char} :
      L.style.munched.skip L.is.rest = c :: cs → L.is.rest = gap ++ c :: cs → t ≠ .END →
      Stops L.style c cs →
      TokenRead (c :: cs) { L with lineNo_ := L.lineNo_ + gap.countP isnewline } L' → ReadOk L t L'

/-- Where a comment between brackets starts that is not skipped, it is not closed. -/
theorem after_of_skip {text body : Text} (hstyle : style.commentStyle = .cComments)
    (h : style.munched.skip text = '/' :: '*' :: body) : after ['*', '/'] body = none := by
  have hcomment := (Gaps.skip_stops h).2
  simpa [Gaps.afterComment, LexerStyle.munched, LexerStyle.gaps, LexerStyle.lineComment, hstyle,
    blockComment] using hcomment

theorem read_ok {L L' : Lexer D} {t : Token} (hL : Standing L L.is.rest) (h : read L = .ok t L') :
    ReadOk L t L' := by
  have hadv := (read_spec L).1
  rw [h] at hadv
  obtain ⟨-, hcurrent, hlen, heof⟩ := hadv
  rcases hL with hL | ⟨hrest, hend⟩
  · obtain ⟨gap, hgap, hread⟩ := read_skip L.is.rest (munches_munched L.style) hL
    rw [hread] at h
    cases hskip : L.style.munched.skip L.is.rest with
    | nil =>
      rw [hskip, read_nil rfl] at h
      obtain ⟨rfl, rfl⟩ := EStateM.Result.ok.inj h
      exact .finished hskip rfl rfl
    | cons c cs =>
      rw [hskip] at h hgap
      obtain ⟨hspace, hcomment⟩ := Gaps.skip_stops hskip
      by_cases hblock : L.style.commentStyle = .cComments ∧ ['/', '*'] <+: c :: cs
      · obtain ⟨hstyle, body, hbody⟩ := hblock
        obtain ⟨rfl, rfl⟩ : '/' = c ∧ '*' :: body = cs := by simpa using hbody
        have hafter := after_of_skip hstyle hskip
        obtain ⟨L'', hread', hrest', heof'⟩ := read_unclosed (L := { L with
          is := ⟨'/' :: '*' :: body, false, false⟩
          lineNo_ := L.lineNo_ + gap.countP isnewline }) hstyle rfl hafter
        obtain ⟨rfl, rfl⟩ := EStateM.Result.ok.inj (hread'.symm.trans h)
        exact .unclosed hstyle hskip hafter hrest' heof'
      · have hstop : Stops L.style c cs :=
          ⟨hspace, hcomment, fun hstyle hprefix => hblock ⟨hstyle, hprefix⟩⟩
        have htoken := read_token (L := { L with
          is := ⟨c :: cs, false, false⟩
          lineNo_ := L.lineNo_ + gap.countP isnewline }) rfl hstop h
        exact .token hskip hgap (hcurrent ▸ htoken.token_ne_END) hstop
          ⟨htoken.line, htoken.standing, htoken.spells⟩
  · obtain ⟨L'', hread, heof', -⟩ := read_eof hend
    obtain ⟨rfl, rfl⟩ := EStateM.Result.ok.inj (hread.symm.trans h)
    rw [hrest, List.length_nil, Nat.le_zero, List.length_eq_zero_iff] at hlen
    exact .finished (by rw [hrest, Gaps.skip_nil]) hlen heof'

theorem read_standing {L L' : Lexer D} {t : Token} (hL : Standing L L.is.rest)
    (h : read L = .ok t L') : Standing L' L'.is.rest := by
  cases read_ok hL h with
  | finished _ hrest heof => exact .inr ⟨hrest, heof⟩
  | unclosed _ _ _ hrest heof => exact .inr ⟨hrest, heof⟩
  | token _ _ _ _ htoken => exact htoken.standing

theorem getToken_ok_cases {L L' : Lexer D} {t : Token} (h : getToken L = .ok t L') :
    L.hold = true ∧ t = L.currentToken_ ∧ L' = { L with hold := false } ∨
      L.hold = false ∧ read L = .ok t L' := by
  unfold getToken at h
  cases hold : L.hold with
  | true =>
    rw [if_pos hold] at h
    obtain ⟨rfl, rfl⟩ := EStateM.Result.ok.inj h
    exact .inl ⟨rfl, rfl, rfl⟩
  | false => exact .inr ⟨rfl, by simpa [hold] using h⟩

/-! ### Sequences of calls -/

/-- What calls of `get_token()` that return, and of `putback()`, make of a lexer. -/
inductive TokenCalls (L₀ : Lexer D) : Lexer D → Prop where
  | refl : TokenCalls L₀ L₀
  | get {L L' : Lexer D} {t : Token} : TokenCalls L₀ L → getToken L = .ok t L' → TokenCalls L₀ L'
  | putback {L : Lexer D} : TokenCalls L₀ L → TokenCalls L₀ L.putback

theorem TokenCalls.trans {L₀ L₁ L₂ : Lexer D} (h₁ : TokenCalls L₀ L₁) (h₂ : TokenCalls L₁ L₂) :
    TokenCalls L₀ L₂ := by
  induction h₂ with
  | refl => exact h₁
  | get _ hget ih => exact ih.get hget
  | putback _ ih => exact ih.putback

theorem TokenCalls.standing {L₀ L : Lexer D} (h : TokenCalls L₀ L) (hL₀ : Standing L₀ L₀.is.rest) :
    L.style = L₀.style ∧ Standing L L.is.rest := by
  induction h with
  | refl => exact ⟨rfl, hL₀⟩
  | putback _ ih => exact ih
  | get _ hget ih =>
    obtain ⟨-, -, rfl⟩ | ⟨-, hread⟩ := getToken_ok_cases hget
    · exact ih
    · exact ⟨(read_frame hread).1.trans ih.1, read_standing ih.2 hread⟩

end Nanonet
