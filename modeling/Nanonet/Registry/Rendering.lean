import Nanonet.Registry.Tokens

/-!
# Rendered tokens

A list of lexemes written to text in a lexer style: `Written` is the text of one lexeme, `Trivia`
the whitespace and the comments between two of them, and `Rendered` the whole. The second half is
what `get_token` does with the trivia: `read_trivia` drops them, whatever follows.
-/

namespace Nanonet

open Lexer

variable {D : Type} {style : LexerStyle}

/-! ### The text of a lexeme -/

/-- A character of a string between quotes. -/
def escape (quote c : Char) : Text :=
  if c = quote then ['\\', quote]
  else if c = '\\' then ['\\', '\\']
  else if c = '\n' then ['\\', 'n']
  else [c]

/-- A string between the quotes of the style. -/
def quoted (style : LexerStyle) (value : Text) : Text :=
  style.quoteChar :: (value.flatMap (escape style.quoteChar) ++ [style.quoteChar])

/-- What stands between two quotes on one line, and the string it stands for. -/
inductive Quoted (quote : Char) : Text → Text → Prop where
  | nil : Quoted quote [] []
  | plain {c : Char} {body value : Text} : c ≠ quote → c ≠ '\\' → c ≠ '\n' →
      Quoted quote body value → Quoted quote (c :: body) (c :: value)
  | quote {body value : Text} : Quoted quote body value →
      Quoted quote ('\\' :: quote :: body) (quote :: value)
  | newline {body value : Text} : Quoted quote body value →
      Quoted quote ('\\' :: 'n' :: body) ('\n' :: value)
  | backslash {body value : Text} : Quoted quote body value →
      Quoted quote ('\\' :: '\\' :: body) ('\\' :: value)

theorem quoted_escape (quote : Char) (value : Text) :
    Quoted quote (value.flatMap (escape quote)) value := by
  induction value with
  | nil => exact .nil
  | cons c cs ih =>
    rw [List.flatMap_cons, escape.eq_def quote c]
    split_ifs with hq hb hl
    · exact hq ▸ ih.quote
    · exact hb ▸ ih.backslash
    · exact hl ▸ ih.newline
    · exact ih.plain hq hb hl

def Digits (ds : Text) : Prop := ∀ c ∈ ds, isdigit c = true

def Sign (s : Text) : Prop := s = [] ∨ s = ['+'] ∨ s = ['-']

def Fraction (whole frac : Text) : Prop :=
  frac = [] ∧ whole ≠ [] ∨ ∃ ds, frac = '.' :: ds ∧ Digits ds ∧ (whole ≠ [] ∨ ds ≠ [])

def Exponent (e : Text) : Prop :=
  e = [] ∨ ∃ m s ds, e = m :: (s ++ ds) ∧ (m = 'e' ∨ m = 'E') ∧ Sign s ∧ Digits ds ∧ ds ≠ []

def Decimal (lit : Text) : Prop :=
  ∃ s whole frac e, lit = s ++ (whole ++ (frac ++ e)) ∧ Sign s ∧ Digits whole ∧
    Fraction whole frac ∧ Exponent e

/-- The text of a lexeme; `valueOf lit d` says that the literal `lit` is in the range of `D` and has
the value `d`. -/
inductive Written (style : LexerStyle) (valueOf : Text → D → Prop) : Text → Lexeme D → Prop where
  | ident (c : Char) (cs : Text) : isalpha c = true → (∀ d ∈ cs, isalnum d = true ∨ d = '_') →
      Written style valueOf (c :: cs) (.ident (c :: cs))
  | string (value : Text) : Written style valueOf (quoted style value) (.string value)
  | num (lit : Text) (d : D) : Decimal lit → valueOf lit d → Written style valueOf lit (.num d)
  | punct (c : Char) (t : Token) : (c, t) ∈ [('(', Token.LP), (')', .RP), ('{', .LB), ('}', .RB),
      ('[', .LBRACKET), (']', .RBRACKET), (',', .COMMA), ('=', .ASSIGN)] →
      Written style valueOf [c] (.punct t)

/-! ### Whitespace and comments -/

/-- What starts a comment till the end of the line. -/
def LexerStyle.lineComment (style : LexerStyle) : Text :=
  match style.commentStyle with
  | .cComments => ['/', '/']
  | .hashComments => ['#']
  | .percentComments => ['%']

/-- A whitespace character, or a complete comment of the style. -/
inductive Trivium (style : LexerStyle) : Text → Prop where
  | space (c : Char) : isspace c = true → Trivium style [c]
  | line (body : Text) : '\n' ∉ body → Trivium style (style.lineComment ++ (body ++ ['\n']))
  | block (body : Text) : style.commentStyle = .cComments → ¬ ['*', '/'] <:+: body →
      Trivium style ('/' :: '*' :: (body ++ ['*', '/']))

inductive Trivia (style : LexerStyle) : Text → Prop where
  | nil : Trivia style []
  | cons {t ts : Text} : Trivium style t → Trivia style ts → Trivia style (t ++ ts)

/-- The last line may be a comment without a newline. -/
def LastComment (style : LexerStyle) (t : Text) : Prop :=
  t = [] ∨ ∃ body, '\n' ∉ body ∧ t = style.lineComment ++ body

/-- The lexemes `xs` one after another; unless `first`, something stands before the next one. -/
inductive Rendered (style : LexerStyle) (valueOf : Text → D → Prop) :
    Bool → Text → List (Lexeme D) → Prop where
  | nil {first : Bool} {t last : Text} : Trivia style t → LastComment style last →
      Rendered style valueOf first (t ++ last) []
  | cons {first : Bool} {t w text : Text} {x : Lexeme D} {xs : List (Lexeme D)} :
      Trivia style t → (first = false → t ≠ []) → Written style valueOf w x →
      Rendered style valueOf false text xs →
      Rendered style valueOf first (t ++ (w ++ text)) (x :: xs)

/-! ### What follows a lexeme -/

/-- What may follow a lexeme: the end, whitespace, or the start of a comment. -/
def Delimited (text : Text) : Prop :=
  ∀ c ∈ text.head?, isspace c = true ∨ c = '/' ∨ c = '#' ∨ c = '%'

theorem lineComment_delimited (style : LexerStyle) (text : Text) :
    style.lineComment ++ text ≠ [] ∧ Delimited (style.lineComment ++ text) := by
  unfold LexerStyle.lineComment
  cases style.commentStyle <;> simp [Delimited]

theorem Trivium.delimited {t : Text} (h : Trivium style t) (text : Text) :
    t ≠ [] ∧ Delimited (t ++ text) := by
  cases h with
  | space c hc => simp [Delimited, hc]
  | line body _ =>
    obtain ⟨hne, -⟩ := lineComment_delimited style (body ++ ['\n'])
    obtain ⟨-, h⟩ := lineComment_delimited style (body ++ ['\n'] ++ text)
    exact ⟨hne, by simpa using h⟩
  | block body _ _ => simp [Delimited]

theorem Trivia.delimited {t : Text} (h : Trivia style t) (hne : t ≠ []) (text : Text) :
    Delimited (t ++ text) := by
  cases h with
  | nil => exact absurd rfl hne
  | cons ht _ =>
    rw [List.append_assoc]
    exact (ht.delimited _).2

theorem Rendered.delimited {valueOf : Text → D → Prop} {text : Text} {xs : List (Lexeme D)}
    (h : Rendered style valueOf false text xs) : Delimited text := by
  cases h with
  | cons ht hne _ _ => exact ht.delimited (hne rfl) _
  | @nil _ t last ht hlast =>
    by_cases hnil : t = []
    · subst hnil
      rcases hlast with rfl | ⟨body, -, rfl⟩
      · simp [Delimited]
      · exact (lineComment_delimited style body).2
    · exact ht.delimited hnil last

/-! ### Skipping -/

variable [NumGet D]

theorem scanWith_head {restart : LexM D Token} {L : Lexer D} {c : Char} {text : Text}
    (h : L.is = ⟨c :: text, false, false⟩) (hc : isspace c = false) :
    scanWith restart L = switch restart c { L with is := ⟨text, false, false⟩ } := by
  have hloop := IStream.getWhile_append (p := isspace) (List.forall_mem_nil _) hc text
  simp only [List.nil_append] at hloop
  simp [scanWith, h, hloop]

theorem read_space {L : Lexer D} {c : Char} {text : Text} (h : L.is = ⟨c :: text, false, false⟩)
    (hc : isspace c = true) :
    read L = read { L with
      is := ⟨text, false, false⟩, lineNo_ := L.lineNo_ + (isnewline c).toNat } := by
  rcases hloop : (⟨text, false, false⟩ : IStream).getWhile isspace with ⟨spaces, stop, is⟩
  have hloop' : (⟨c :: text, false, false⟩ : IStream).getWhile isspace =
      (c :: spaces, stop, is) := by
    rw [IStream.getWhile_eq]
    simp [IStream.get, hc, hloop]
  have hcount : L.lineNo_ + (c :: spaces).countP isnewline =
      L.lineNo_ + (isnewline c).toNat + spaces.countP isnewline := by
    rw [List.countP_cons]
    cases isnewline c
    · simp
    · simp only [Bool.toNat_true, if_true]
      omega
  rw [read_eq, read_eq]
  simp only [scanWith, h, hloop, hloop', hcount]

omit [NumGet D] in
theorem munchLine_line {restart : LexM D Token} {L : Lexer D} (body text : Text)
    (h : L.is = ⟨body ++ '\n' :: text, false, false⟩) (hbody : '\n' ∉ body) :
    munchLine restart L =
      restart { L with is := ⟨text, false, false⟩, lineNo_ := L.lineNo_ + 1 } := by
  have hloop := IStream.getWhile_append (all_not_newline hbody) (c := '\n') rfl text
  simp [munchLine, h, hloop]

omit [NumGet D] in
theorem munchLine_last {restart : LexM D Token} {L : Lexer D} {body : Text}
    (h : L.is = ⟨body, false, false⟩) (hbody : '\n' ∉ body) :
    munchLine restart L =
      .ok .END { L with is := ⟨[], true, true⟩, currentToken_ := .END } := by
  have hloop := IStream.getWhile_all (all_not_newline hbody)
  simp [munchLine, h, hloop, return_]

theorem munchText_block {body : Text} (hbody : ¬ ['*', '/'] <:+: body) (text : Text) (line : Nat) :
    ∃ n, munchText (body ++ ('*' :: '/' :: text)) line = (⟨text, false, false⟩, line + n) := by
  have hclosing : ¬ ['*', '/'] <:+: body ++ ['*'] := by
    intro hmem
    obtain hlast | hmem := List.infix_concat_iff.1 hmem
    · have heq := hlast.getLast (List.cons_ne_nil _ _)
      simp at heq
    · exact hbody hmem
  obtain ⟨comment, -, hmunch⟩ := munchText_after (after_append hclosing text) line
  exact ⟨_, hmunch⟩

theorem newline_notMem_lineComment (style : LexerStyle) {body : Text} (h : '\n' ∉ body) :
    '\n' ∉ style.lineComment.tail ++ body := by
  unfold LexerStyle.lineComment
  cases style.commentStyle <;> simpa using h

theorem read_lineComment {L : Lexer D} {body : Text}
    (h : L.is = ⟨L.style.lineComment ++ body, false, false⟩) :
    read L = munchLine read { L with
      is := ⟨L.style.lineComment.tail ++ body, false, false⟩ } := by
  rw [read_eq]
  cases hstyle : L.style.commentStyle <;> simp only [LexerStyle.lineComment, hstyle] at h ⊢ <;>
    rw [scanWith_head h rfl] <;>
    simp [switch, lexSlash, IStream.peek, LexerStyle.commentChar, hstyle]

theorem read_block {L : Lexer D} {body text : Text} (hstyle : L.style.commentStyle = .cComments)
    (h : L.is = ⟨'/' :: '*' :: (body ++ '*' :: '/' :: text), false, false⟩)
    (hbody : ¬ ['*', '/'] <:+: body) :
    ∃ n, read L = read { L with is := ⟨text, false, false⟩, lineNo_ := L.lineNo_ + n } := by
  obtain ⟨n, hmunch⟩ := munchText_block hbody text L.lineNo_
  refine ⟨n, ?_⟩
  rw [read_eq, scanWith_head h rfl]
  simp [switch, lexSlash, IStream.peek, IStream.ignore, munchTillAsterisksSlash, hstyle, hmunch]

theorem read_trivium {t : Text} (ht : Trivium style t) {L : Lexer D} {text : Text}
    (hstyle : L.style = style) (h : L.is = ⟨t ++ text, false, false⟩) :
    ∃ n, read L = read { L with is := ⟨text, false, false⟩, lineNo_ := L.lineNo_ + n } := by
  subst hstyle
  cases ht with
  | space c hc => exact ⟨_, read_space h hc⟩
  | line body hbody =>
    refine ⟨1, ?_⟩
    have h' : L.is = ⟨L.style.lineComment ++ (body ++ '\n' :: text), false, false⟩ := by simp [h]
    rw [read_lineComment h', munchLine_line (L.style.lineComment.tail ++ body) text (by simp)
      (newline_notMem_lineComment _ hbody)]
  | block body hstyle hbody => exact read_block hstyle (by simp [h]) hbody

theorem read_trivia {t : Text} (ht : Trivia style t) {L : Lexer D} {text : Text}
    (hstyle : L.style = style) (h : L.is = ⟨t ++ text, false, false⟩) :
    ∃ n, read L = read { L with is := ⟨text, false, false⟩, lineNo_ := L.lineNo_ + n } := by
  induction ht generalizing L with
  | nil => exact ⟨0, by rw [← show L.is = ⟨text, false, false⟩ from h]; rfl⟩
  | @cons t ts htrivium _ ih =>
    rw [List.append_assoc] at h
    obtain ⟨n, hn⟩ := read_trivium htrivium hstyle h
    obtain ⟨m, hm⟩ := ih (L := { L with
      is := ⟨ts ++ text, false, false⟩, lineNo_ := L.lineNo_ + n }) hstyle rfl
    exact ⟨n + m, by rw [hn, hm, Nat.add_assoc]⟩

end Nanonet
