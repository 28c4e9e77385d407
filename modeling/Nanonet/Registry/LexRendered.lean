import Mathlib.Data.List.TakeWhile
import Nanonet.Registry.Rendering

/-!
# Lexing undoes rendering

The text of a lexeme, followed by the end, whitespace or a comment, is read as that lexeme
(`read_written`): one lemma for each kind of lexeme, over one lemma for each way out of `switch`.
With the trivia skipped, `get_token` returns the lexemes of a rendered text in order and then `END`
forever (`getTokens_rendered`).
-/

namespace Nanonet

open Lexer

variable {D : Type} [NumGet D] {style : LexerStyle}

/-- `operator>>( double& )` reads a decimal literal in range up to what delimits it. -/
def ReadsDecimals (valueOf : Text → D → Prop) : Prop :=
  ∀ {lit rest : Text} {d : D}, Decimal lit → valueOf lit d → Delimited rest →
    NumGet.extract (lit ++ rest) = (some d, rest)

/-- What is left of the stream: `text`, or nothing of a stream at its end. -/
def Standing (L : Lexer D) (text : Text) : Prop :=
  L.is = ⟨text, false, false⟩ ∨ text = [] ∧ L.is.eofbit = true

omit [NumGet D] in
theorem Standing.good {L : Lexer D} {text : Text} (h : Standing L text) (hne : text ≠ []) :
    L.is = ⟨text, false, false⟩ :=
  h.resolve_right fun h => hne h.1

/-! ### The ways out of `switch` -/

section switch

variable (restart : LexM D Token) {L : Lexer D} {c : Char}

theorem switch_punct {t : Token}
    (h : (c, t) ∈ [('(', Token.LP), (')', .RP), ('{', .LB), ('}', .RB), ('[', .LBRACKET),
      (']', .RBRACKET), (',', .COMMA), ('=', .ASSIGN)]) :
    isspace c = false ∧ switch restart c L = return_ t L := by
  simp only [List.mem_cons, Prod.mk.injEq, List.not_mem_nil, or_false] at h
  rcases h with ⟨rfl, rfl⟩ | ⟨rfl, rfl⟩ | ⟨rfl, rfl⟩ | ⟨rfl, rfl⟩ | ⟨rfl, rfl⟩ | ⟨rfl, rfl⟩ |
    ⟨rfl, rfl⟩ | ⟨rfl, rfl⟩ <;> exact ⟨rfl, by simp [switch, returnChar, charToken]⟩

theorem switch_quote : isspace L.style.quoteChar = false ∧
    switch restart L.style.quoteChar L = lexString L := by
  unfold LexerStyle.quoteChar
  split
  · next hquote => exact ⟨rfl, by simp [switch, LexerStyle.quoteChar, hquote]⟩
  · next hquote => exact ⟨rfl, by simp [switch, LexerStyle.quoteChar, hquote]⟩

/-- Whitespace, and the characters `switch` has a branch for. -/
def specials : List Char :=
  [' ', '\t', '\n', '\x0b', '\x0c', '\r', '#', '%', '/', '=', '(', ')', '{', '}', '[', ']', ',',
    '"', '\'']

theorem switch_plain (h : ∀ d ∈ specials, c ≠ d) :
    isspace c = false ∧ switch restart c L =
      if isdigit c || c == '.' || c == '+' || c == '-' then lexNumber c L
      else if isalpha c then lexIdent c L
      else throwHere ("bad character in input (" ++ c.toString ++ ")") L := by
  simp only [specials, List.forall_mem_cons] at h
  refine ⟨by simp [isspace, h], ?_⟩
  unfold switch
  rw [if_neg (by simp [h]), if_neg (by simp [h]), if_neg (by simp [h]), if_neg (by simp [h])]

theorem switch_number (h : (isdigit c || c == '.' || c == '+' || c == '-') = true) :
    isspace c = false ∧ switch restart c L = lexNumber c L := by
  have hnone : ∀ d ∈ specials, (isdigit d || d == '.' || d == '+' || d == '-') = false := by
    simp [specials, isdigit]
  have hplain : ∀ d ∈ specials, c ≠ d := by
    rintro d hd rfl
    rw [hnone c hd] at h
    cases h
  obtain ⟨hspace, hswitch⟩ := switch_plain restart (L := L) hplain
  exact ⟨hspace, by rw [hswitch, if_pos h]⟩

theorem isdigit_of_isalpha (h : isalpha c = true) : isdigit c = false := by
  apply Bool.eq_false_iff.2
  intro hdigit
  have hle : c.toNat ≤ '9'.toNat := (Char.isDigit_iff_toNat.1 hdigit).2
  have hlt : '9'.toNat < 'A'.toNat ∧ '9'.toNat < 'a'.toNat := by decide
  obtain hupper | hlower : c.isUpper = true ∨ c.isLower = true := Bool.or_eq_true_iff.1 h
  · have hge : 'A'.toNat ≤ c.toNat := UInt32.le_iff_toNat_le.1 (of_decide_eq_true hupper).1
    omega
  · have hge : 'a'.toNat ≤ c.toNat :=
      UInt32.le_iff_toNat_le.1 (of_decide_eq_true (Bool.and_eq_true_iff.1 hlower).1)
    omega

theorem switch_ident (h : isalpha c = true) :
    isspace c = false ∧ switch restart c L = lexIdent c L := by
  have hnone : ∀ d ∈ specials ++ ['.', '+', '-'], isalpha d = false := by
    simp [specials, isalpha]
  have hplain : ∀ d ∈ specials ++ ['.', '+', '-'], c ≠ d := by
    rintro d hd rfl
    rw [hnone c hd] at h
    cases h
  simp only [List.forall_mem_append, List.forall_mem_cons] at hplain
  obtain ⟨hspace, hswitch⟩ := switch_plain restart (L := L) hplain.1
  refine ⟨hspace, ?_⟩
  rw [hswitch, if_neg (by simp [isdigit_of_isalpha h, hplain.2]), if_pos h]

end switch

/-! ### One lexeme -/

theorem stringBody_plain {quote c : Char} (hnewline : isnewline c = false) (hquote : c ≠ quote)
    (hbackslash : c ≠ '\\') (text : Text) :
    stringBody quote (c :: text) =
      (c :: (stringBody quote text).1, (stringBody quote text).2) := by
  rw [stringBody.eq_def]
  simp [hnewline, hquote, hbackslash]

theorem stringBody_escape {quote c : Char} (hquote : quote ≠ '\\')
    (hc : quote = c ∨ 'n' = c ∨ '\\' = c) (text : Text) :
    stringBody quote ('\\' :: c :: text) =
      ((if quote = c then quote else if 'n' = c then '\n' else '\\') :: (stringBody quote text).1,
        (stringBody quote text).2) := by
  have hgood : ¬ (quote ≠ c ∧ 'n' ≠ c ∧ '\\' ≠ c) := by tauto
  rw [stringBody.eq_def]
  simp only [show isnewline '\\' = false from rfl, Bool.false_eq_true, if_false, if_neg hquote.symm,
    if_true, if_neg hgood]

theorem quoteChar_cases (style : LexerStyle) : style.quoteChar = '"' ∨ style.quoteChar = '\'' := by
  unfold LexerStyle.quoteChar
  split
  · exact .inr rfl
  · exact .inl rfl

theorem stringBody_quoted {quote : Char} (hquote : quote = '"' ∨ quote = '\'') {body value : Text}
    (h : Quoted quote body value) (rest : Text) :
    stringBody quote (body ++ quote :: rest) = (value, none, ⟨rest, false, false⟩) := by
  obtain ⟨hbackslash, hn, hnewline⟩ : quote ≠ '\\' ∧ quote ≠ 'n' ∧ isnewline quote = false := by
    rcases hquote with rfl | rfl <;> decide
  induction h with
  | nil =>
    rw [List.nil_append, stringBody.eq_def]
    simp [hnewline]
  | @plain c body value hq hb hl _ ih =>
    have hc : isnewline c = false := by simpa [isnewline] using Ne.symm hl
    rw [List.cons_append, stringBody_plain hc hq hb, ih]
  | quote _ ih =>
    rw [List.cons_append, List.cons_append, stringBody_escape hbackslash (.inl rfl), ih, if_pos rfl]
  | newline _ ih =>
    rw [List.cons_append, List.cons_append, stringBody_escape hbackslash (.inr (.inl rfl)), ih,
      if_neg hn, if_pos rfl]
  | backslash _ ih =>
    rw [List.cons_append, List.cons_append, stringBody_escape hbackslash (.inr (.inr rfl)), ih,
      if_neg hbackslash, if_neg (by decide)]

/-- The text of a lexeme is read as that lexeme, and what follows it is left. -/
theorem read_ident {c : Char} {cs rest : Text} (hc : isalpha c = true)
    (hcs : ∀ d ∈ cs, (isalnum d || d == '_') = true)
    (hrest : ∀ d ∈ rest.head?, (isalnum d || d == '_') = false) {L : Lexer D}
    (h : L.is = ⟨c :: (cs ++ rest), false, false⟩) :
    ∃ L', read L = .ok .IDENT L' ∧ L'.lexeme = .ident (c :: cs) ∧ Standing L' rest := by
  obtain ⟨hspace, hswitch⟩ := switch_ident read
    (L := { L with is := ⟨cs ++ rest, false, false⟩ }) hc
  rw [read_eq, scanWith_head h hspace, hswitch]
  unfold lexIdent
  cases rest with
  | nil =>
    have hloop := IStream.getWhile_all hcs
    rw [List.append_nil]
    simp only [hloop]
    exact ⟨_, rfl, rfl, .inr ⟨rfl, rfl⟩⟩
  | cons d ds =>
    have hloop := IStream.getWhile_append hcs (hrest d rfl) ds
    simp only [hloop]
    exact ⟨_, rfl, rfl, .inl rfl⟩

theorem Delimited.not_ident {rest : Text} (h : Delimited rest) :
    ∀ d ∈ rest.head?, (isalnum d || d == '_') = false := by
  intro d hd
  rcases h d hd with hd | rfl | rfl | rfl
  · simp only [isspace, Bool.or_eq_true, beq_iff_eq] at hd
    rcases hd with ((((rfl | rfl) | rfl) | rfl) | rfl) | rfl <;> decide
  all_goals decide

theorem Decimal.start {lit : Text} (h : Decimal lit) :
    ∃ c cs, lit = c :: cs ∧ (isdigit c || c == '.' || c == '+' || c == '-') = true := by
  obtain ⟨s, whole, frac, e, rfl, rfl | rfl | rfl, hwhole, hfrac, -⟩ := h
  · rcases whole with _ | ⟨c, cs⟩
    · rcases hfrac with ⟨-, hne⟩ | ⟨ds, rfl, -⟩
      · exact absurd rfl hne
      · exact ⟨_, _, rfl, rfl⟩
    · exact ⟨c, _, rfl, by simp [hwhole c (by simp)]⟩
  · exact ⟨_, _, rfl, rfl⟩
  · exact ⟨_, _, rfl, rfl⟩

theorem read_num {c : Char} {cs rest : Text} {d : D}
    (hc : (isdigit c || c == '.' || c == '+' || c == '-') = true)
    (hextract : NumGet.extract (c :: cs) = (some d, rest)) {L : Lexer D}
    (h : L.is = ⟨c :: cs, false, false⟩) :
    ∃ L', read L = .ok .NUM L' ∧ L'.lexeme = .num d ∧ Standing L' rest := by
  obtain ⟨hspace, hswitch⟩ := switch_number read (L := { L with is := ⟨cs, false, false⟩ }) hc
  have hread : (⟨c :: cs, false, false⟩ : IStream).readDouble =
      (some d, ⟨rest, rest.isEmpty, false⟩) := by
    simp [IStream.readDouble, hspace, hextract]
  rw [read_eq, scanWith_head h hspace, hswitch]
  unfold lexNumber
  simp only [IStream.putback, Bool.false_eq_true, if_false, hread]
  refine ⟨_, rfl, rfl, ?_⟩
  cases rest with
  | nil => exact .inr ⟨rfl, rfl⟩
  | cons c cs => exact .inl rfl

theorem read_string {body value rest : Text} {L : Lexer D}
    (hbody : Quoted L.style.quoteChar body value)
    (h : L.is = ⟨L.style.quoteChar :: (body ++ L.style.quoteChar :: rest), false, false⟩) :
    ∃ L', read L = .ok .STRING L' ∧ L'.lexeme = .string value ∧ Standing L' rest := by
  obtain ⟨hspace, hswitch⟩ := switch_quote read (L := { L with
    is := ⟨body ++ L.style.quoteChar :: rest, false, false⟩ })
  rw [read_eq, scanWith_head h hspace, hswitch]
  unfold lexString
  simp only [stringBody_quoted (quoteChar_cases L.style) hbody rest]
  exact ⟨_, rfl, rfl, .inl rfl⟩

theorem read_punct {c : Char} {rest : Text} {t : Token}
    (hct : (c, t) ∈ [('(', Token.LP), (')', .RP), ('{', .LB), ('}', .RB), ('[', .LBRACKET),
      (']', .RBRACKET), (',', .COMMA), ('=', .ASSIGN)]) {L : Lexer D}
    (h : L.is = ⟨c :: rest, false, false⟩) :
    ∃ L', read L = .ok t L' ∧ L'.lexeme = .punct t ∧ Standing L' rest := by
  obtain ⟨hspace, hswitch⟩ := switch_punct read (L := { L with is := ⟨rest, false, false⟩ }) hct
  rw [read_eq, scanWith_head h hspace, hswitch]
  refine ⟨_, rfl, ?_, .inl rfl⟩
  simp only [List.mem_cons, Prod.mk.injEq, List.not_mem_nil, or_false] at hct
  rcases hct with ⟨-, rfl⟩ | ⟨-, rfl⟩ | ⟨-, rfl⟩ | ⟨-, rfl⟩ | ⟨-, rfl⟩ | ⟨-, rfl⟩ | ⟨-, rfl⟩ |
    ⟨-, rfl⟩ <;> rfl

theorem read_written {valueOf : Text → D → Prop} (hnum : ReadsDecimals valueOf) {w rest : Text}
    {x : Lexeme D} (hw : Written style valueOf w x) (hrest : Delimited rest) {L : Lexer D}
    (hstyle : L.style = style) (h : L.is = ⟨w ++ rest, false, false⟩) :
    ∃ L', read L = .ok x.token L' ∧ L'.lexeme = x ∧ Standing L' rest := by
  subst hstyle
  cases hw with
  | ident c cs hc hcs =>
    exact read_ident hc (fun d hd => by simpa using hcs d hd) hrest.not_ident h
  | string value =>
    refine read_string (quoted_escape L.style.quoteChar value) ?_
    simpa [quoted] using h
  | num lit d hlit hd =>
    have hextract := hnum hlit hd hrest
    obtain ⟨c, cs, rfl, hc⟩ := hlit.start
    exact read_num hc hextract h
  | punct c t hct => exact read_punct hct h

/-! ### The whole text -/

/-- The current token with its value, as a call. -/
def currentLexeme : LexM D (Lexeme D) := fun L => .ok L.lexeme L

/-- What `n` calls of `get_token()` return, with the values. -/
def getTokens : Nat → LexM D (List (Lexeme D))
  | 0 => pure []
  | n + 1 => do
    let _ ← getToken
    let x ← currentLexeme
    let xs ← getTokens n
    pure (x :: xs)

theorem getTokens_succ {n : Nat} {L L₁ L₂ : Lexer D} {t : Token} {xs : List (Lexeme D)}
    (hget : getToken L = .ok t L₁) (h : getTokens n L₁ = .ok xs L₂) :
    getTokens (n + 1) L = .ok (L₁.lexeme :: xs) L₂ := by
  have hlexeme : currentLexeme L₁ = .ok L₁.lexeme L₁ := rfl
  rw [getTokens, Call.bind_ok hget, Call.bind_ok hlexeme, Call.bind_ok h]
  rfl

omit [NumGet D] in
theorem lexeme_END {L : Lexer D} (h : L.currentToken_ = .END) : L.lexeme = .punct .END := by
  simp [lexeme, h]

theorem read_frame {L L' : Lexer D} {t : Token} (h : read L = .ok t L') :
    L'.style = L.style ∧ L'.hold = L.hold ∧ L'.currentToken_ = t := by
  have hadv := (read_spec L).1
  rw [h] at hadv
  exact ⟨hadv.1.style, hadv.1.hold, hadv.2.1⟩

theorem getTokens_eof (n : Nat) {L : Lexer D} (heof : L.is.eofbit = true) (hold : L.hold = false) :
    ∃ L', getTokens n L = .ok (List.replicate n (.punct .END)) L' := by
  induction n generalizing L with
  | zero => exact ⟨L, rfl⟩
  | succ n ih =>
    obtain ⟨L₁, hread, heof₁, -⟩ := read_eof heof
    obtain ⟨-, hhold, hcurrent⟩ := read_frame hread
    obtain ⟨L', hrest⟩ := ih heof₁ (hhold.trans hold)
    refine ⟨L', ?_⟩
    rw [getTokens_succ ((getToken_of_hold hold).trans hread) hrest, lexeme_END hcurrent]
    rfl

theorem read_end {t last : Text} (ht : Trivia style t) (hlast : LastComment style last)
    {L : Lexer D} (hstyle : L.style = style) (h : Standing L (t ++ last)) :
    ∃ L', read L = .ok .END L' ∧ L'.is.eofbit = true := by
  rcases h with h | ⟨-, heof⟩
  · obtain ⟨n, hn⟩ := read_trivia ht hstyle h
    rw [hn]
    rcases hlast with rfl | ⟨body, hbody, rfl⟩
    · rw [read_eq]
      exact ⟨_, rfl, rfl⟩
    · subst hstyle
      rw [read_lineComment rfl, munchLine_last rfl (newline_notMem_lineComment _ hbody)]
      exact ⟨_, rfl, rfl⟩
  · obtain ⟨L', hread, heof', -⟩ := read_eof heof
    exact ⟨L', hread, heof'⟩

omit [NumGet D] in
theorem Written.ne_nil {valueOf : Text → D → Prop} {w : Text} {x : Lexeme D}
    (h : Written style valueOf w x) : w ≠ [] := by
  cases h with
  | num lit d hlit _ =>
    obtain ⟨c, cs, rfl, -⟩ := hlit.start
    simp
  | _ => simp [quoted]

theorem getTokens_of_rendered {valueOf : Text → D → Prop} (hnum : ReadsDecimals valueOf)
    {first : Bool} {text : Text} {xs : List (Lexeme D)}
    (h : Rendered style valueOf first text xs) (n : Nat) {L : Lexer D} (hstyle : L.style = style)
    (hold : L.hold = false) (hL : Standing L text) :
    ∃ L', getTokens (xs.length + n) L = .ok (xs ++ List.replicate n (.punct .END)) L' := by
  induction h generalizing L with
  | @nil first t last ht hlast =>
    rw [List.length_nil, Nat.zero_add, List.nil_append]
    cases n with
    | zero => exact ⟨L, rfl⟩
    | succ n =>
      obtain ⟨L₁, hread, heof⟩ := read_end ht hlast hstyle hL
      obtain ⟨-, hhold, hcurrent⟩ := read_frame hread
      obtain ⟨L', hrest⟩ := getTokens_eof n heof (hhold.trans hold)
      refine ⟨L', ?_⟩
      rw [getTokens_succ ((getToken_of_hold hold).trans hread) hrest, lexeme_END hcurrent]
      rfl
  | @cons first t w text x xs ht _ hw htext ih =>
    obtain ⟨k, hk⟩ := read_trivia ht hstyle (hL.good (by simp [hw.ne_nil]))
    obtain ⟨L₁, hread, hlexeme, hL₁⟩ := read_written hnum hw htext.delimited
      (L := { L with is := ⟨w ++ text, false, false⟩, lineNo_ := L.lineNo_ + k }) hstyle rfl
    obtain ⟨hstyle₁, hhold₁, -⟩ := read_frame hread
    obtain ⟨L', hrest⟩ := ih (hstyle₁.trans hstyle) (hhold₁.trans hold) hL₁
    refine ⟨L', ?_⟩
    rw [List.length_cons, Nat.add_right_comm, getTokens_succ
      ((getToken_of_hold hold).trans (hk.trans hread)) hrest, hlexeme]
    rfl

/-- **Lexing undoes rendering.** On the text of a list of lexemes, in any style, `get_token` returns
the lexemes in order, with their values, and then `END` forever. -/
theorem getTokens_rendered {valueOf : Text → D → Prop} (hnum : ReadsDecimals valueOf)
    (style : LexerStyle) (filename : String) {text : Text} {xs : List (Lexeme D)}
    (h : Rendered style valueOf true text xs) (n : Nat) :
    ∃ L', getTokens (xs.length + n) (open_ (.ofText text) filename style) =
      .ok (xs ++ List.replicate n (.punct .END)) L' :=
  getTokens_of_rendered hnum h n rfl rfl (.inl rfl)

theorem readsDecimals_digits : ReadsDecimals fun lit (d : ℕ) => readDigits lit = (some d, []) := by
  intro lit rest d _ hlit hrest
  have hstop : rest.takeWhile isdigit = [] ∧ rest.dropWhile isdigit = rest := by
    cases rest with
    | nil => exact ⟨rfl, rfl⟩
    | cons c cs =>
      have hc : isdigit c = false := by
        rcases hrest c rfl with hc | rfl | rfl | rfl
        · simp only [isspace, Bool.or_eq_true, beq_iff_eq] at hc
          rcases hc with ((((rfl | rfl) | rfl) | rfl) | rfl) | rfl <;> decide
        all_goals decide
      simp [hc]
  unfold readDigits at hlit
  split_ifs at hlit with hne
  · simp at hlit
  · simp only [Prod.mk.injEq, Option.some.injEq, List.dropWhile_eq_nil_iff] at hlit
    obtain ⟨rfl, hall⟩ := hlit
    change readDigits (lit ++ rest) = _
    have htake : (lit ++ rest).takeWhile isdigit = lit.takeWhile isdigit := by
      rw [List.takeWhile_append_of_pos hall, hstop.1, List.append_nil,
        List.takeWhile_eq_self_iff.2 hall]
    have hdrop : (lit ++ rest).dropWhile isdigit = rest := by
      rw [List.dropWhile_append_of_pos hall, hstop.2]
    rw [readDigits, htake, if_neg hne, hdrop]

/-- `a /***/12//`. -/
theorem getTokens_rendered_comments :
    ∃ L', getTokens 4 (open_ (.ofText ['a', ' ', '/', '*', '*', '*', '/', '1', '2', '/', '/']) "f"
      ⟨.cComments, .doubleQuote⟩) =
        .ok [.ident ['a'], .num (12 : ℕ), .punct .END, .punct .END] L' := by
  have hend : Rendered ⟨.cComments, .doubleQuote⟩ (fun lit (d : ℕ) => readDigits lit = (some d, []))
      false ['/', '/'] [] := .nil .nil (.inr ⟨[], by simp, rfl⟩)
  have hnum : Rendered ⟨.cComments, .doubleQuote⟩ (fun lit (d : ℕ) => readDigits lit = (some d, []))
      false [' ', '/', '*', '*', '*', '/', '1', '2', '/', '/'] [.num 12] := by
    refine .cons (w := ['1', '2'])
      (.cons (.space ' ' rfl) (.cons (.block ['*'] rfl (by decide)) .nil)) (by simp)
      (.num _ _ ?_ (by decide)) hend
    exact ⟨[], ['1', '2'], [], [], rfl, .inl rfl, by simp [Digits]; decide, .inl ⟨rfl, by simp⟩,
      .inl rfl⟩
  have hident : Rendered ⟨.cComments, .doubleQuote⟩
      (fun lit (d : ℕ) => readDigits lit = (some d, [])) true
      ['a', ' ', '/', '*', '*', '*', '/', '1', '2', '/', '/'] [.ident ['a'], .num 12] :=
    .cons .nil (by simp) (.ident 'a' [] rfl (by simp)) hnum
  exact getTokens_rendered readsDecimals_digits ⟨.cComments, .doubleQuote⟩ "f" hident 2

end Nanonet
