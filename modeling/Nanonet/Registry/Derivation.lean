import Nanonet.Registry.Tokens
import Nanonet.Registry.Parser

/-!
# The grammar of terms, and the parser against it

`Term ps p v`: the tokens `p` derive the value `v` in the grammar

  term  ::= NUM | STRING | IDENT | IDENT exprOpen elems exprClose | listOpen elems listClose
  elems ::= nothing, or terms with a separator between two of them

where a separator is one `COMMA`, or with `commaOptional` also nothing. What
`parse_list` has left to read at a turn of its loop is `Elems` before the first element and `More`
after it.
-/

namespace Nanonet

open Lexer

variable {D : Type}

/-- A sequence of tokens with their line numbers. -/
abbrev Located (D : Type) := List (Lexeme D × Nat)

/-- What may stand between two elements. -/
inductive Separator (ps : ParserStyle) : Located D → Prop where
  | none : ps.commaStyle = .commaOptional → Separator ps []
  | comma (line : Nat) : Separator ps [(.punct .COMMA, line)]

mutual

inductive Term (ps : ParserStyle) : Located D → Value D → Prop where
  | num (d : D) (line : Nat) : Term ps [(.num d, line)] (.num d)
  | string (s : Text) (line : Nat) : Term ps [(.string s, line)] (.string s)
  | ident (s : Text) (line : Nat) : Term ps [(.ident s, line)] (.string s)
  | expression (head : Text) (line lo lc : Nat) {p : Located D} {vs : List (Value D)} :
      Elems ps p vs →
      Term ps ((.ident head, line) :: (.punct ps.expressionOpenToken, lo) ::
        (p ++ [(.punct ps.expressionCloseToken, lc)])) (.expression head vs)
  | list (lo lc : Nat) {p : Located D} {vs : List (Value D)} :
      Elems ps p vs →
      Term ps ((.punct ps.listOpenToken, lo) :: (p ++ [(.punct ps.listCloseToken, lc)])) (.list vs)

inductive Elems (ps : ParserStyle) : Located D → List (Value D) → Prop where
  | nil : Elems ps [] []
  | cons {p q : Located D} {v : Value D} {vs : List (Value D)} :
      Term ps p v → More ps q vs → Elems ps (p ++ q) (v :: vs)

/-- The elements after the first one, each with the separator before it. -/
inductive More (ps : ParserStyle) : Located D → List (Value D) → Prop where
  | nil : More ps [] []
  | cons {sep p q : Located D} {v : Value D} {vs : List (Value D)} :
      Separator ps sep → Term ps p v → More ps q vs → More ps (sep ++ (p ++ q)) (v :: vs)

end

/-- The delimiters are distinct and among `LP`, `LB` and `LBRACKET`. -/
structure ParserStyle.Proper (ps : ParserStyle) : Prop where
  list : ps.listDelimiter ∈ [Token.LP, .LB, .LBRACKET]
  expression : ps.expressionDelimiter ∈ [Token.LP, .LB, .LBRACKET]
  distinct : ps.listDelimiter ≠ ps.expressionDelimiter

/-- After an identifier that is a term of its own, `parse_term` has read one more token: it is not
the expression delimiter, and reading it does not throw. -/
def Follow (ps : ParserStyle) (p : Located D) (rest : Tokens D) : Prop :=
  ∀ s line, p = [(.ident s, line)] →
    match rest with
    | ⟨[], ending⟩ => ending = .finished
    | ⟨x :: _, _⟩ => x.1.token ≠ ps.expressionOpenToken

/-! ### Tokens that start and close -/

section tokens

variable {ps : ParserStyle}

/-- The tokens a term starts with. -/
def Starts (ps : ParserStyle) (t : Token) : Prop :=
  t = .NUM ∨ t = .STRING ∨ t = .IDENT ∨ t = ps.listOpenToken

def Closes (ps : ParserStyle) (t : Token) : Prop :=
  t = ps.listCloseToken ∨ t = ps.expressionCloseToken

theorem Term.starts {p : Located D} {v : Value D} (h : Term ps p v) :
    ∃ x xs, p = x :: xs ∧ Starts ps x.1.token := by
  cases h with
  | num d line => exact ⟨_, _, rfl, .inl rfl⟩
  | string s line => exact ⟨_, _, rfl, .inr (.inl rfl)⟩
  | ident s line => exact ⟨_, _, rfl, .inr (.inr (.inl rfl))⟩
  | expression head line lo lc h => exact ⟨_, _, rfl, .inr (.inr (.inl rfl))⟩
  | list lo lc h => exact ⟨_, _, rfl, .inr (.inr (.inr rfl))⟩

theorem More.head {q : Located D} {vs : List (Value D)} (h : More ps q vs) :
    q = [] ∨ ∃ x xs, q = x :: xs ∧ (x.1.token = .COMMA ∨ Starts ps x.1.token) := by
  cases h with
  | nil => exact .inl rfl
  | cons hsep hterm _ =>
    obtain ⟨x, xs, rfl, hstarts⟩ := hterm.starts
    cases hsep with
    | none _ => exact .inr ⟨x, _, rfl, .inr hstarts⟩
    | comma line => exact .inr ⟨(.punct .COMMA, line), _, rfl, .inl rfl⟩

namespace ParserStyle.Proper

variable (hps : ps.Proper)
include hps

/-- The three opening tokens close with three others, and none is `END` or a value token. -/
theorem delimiters :
    (ps.listOpenToken, ps.listCloseToken) ∈
        [(Token.LP, Token.RP), (.LB, .RB), (.LBRACKET, .RBRACKET)] ∧
      (ps.expressionOpenToken, ps.expressionCloseToken) ∈
        [(Token.LP, Token.RP), (.LB, .RB), (.LBRACKET, .RBRACKET)] ∧
      ps.listOpenToken ≠ ps.expressionOpenToken := by
  obtain ⟨hlist, hexpression, hne⟩ := hps
  refine ⟨?_, ?_, hne⟩
  · simp only [List.mem_cons, List.not_mem_nil, or_false] at hlist
    rcases hlist with h | h | h <;>
      simp [ParserStyle.listOpenToken, ParserStyle.listCloseToken, h, closingToken]
  · simp only [List.mem_cons, List.not_mem_nil, or_false] at hexpression
    rcases hexpression with h | h | h <;>
      simp [ParserStyle.expressionOpenToken, ParserStyle.expressionCloseToken, h, closingToken]

theorem starts_ne_close {t close : Token} (ht : Starts ps t) (hclose : Closes ps close) :
    t ≠ close := by
  obtain ⟨hlist, hexpression, -⟩ := hps.delimiters
  rcases ht with rfl | rfl | rfl | rfl <;> rcases hclose with rfl | rfl <;> grind

theorem comma_ne_close {close : Token} (hclose : Closes ps close) : Token.COMMA ≠ close := by
  obtain ⟨hlist, hexpression, -⟩ := hps.delimiters
  rcases hclose with rfl | rfl <;> grind

theorem close_ne_END {close : Token} (hclose : Closes ps close) : close ≠ .END := by
  obtain ⟨hlist, hexpression, -⟩ := hps.delimiters
  rcases hclose with rfl | rfl <;> grind

theorem starts_ne_open {t : Token} (ht : Starts ps t) : t ≠ ps.expressionOpenToken := by
  obtain ⟨hlist, hexpression, hne⟩ := hps.delimiters
  rcases ht with rfl | rfl | rfl | rfl <;> grind

theorem comma_ne_open : Token.COMMA ≠ ps.expressionOpenToken := by
  obtain ⟨hlist, hexpression, -⟩ := hps.delimiters
  grind

theorem close_ne_open {close : Token} (hclose : Closes ps close) :
    close ≠ ps.expressionOpenToken := by
  obtain ⟨hlist, hexpression, -⟩ := hps.delimiters
  rcases hclose with rfl | rfl <;> grind

theorem END_ne_open : Token.END ≠ ps.expressionOpenToken := by
  obtain ⟨hlist, hexpression, -⟩ := hps.delimiters
  grind

theorem END_ne_list : Token.END ≠ ps.listOpenToken := by
  obtain ⟨hlist, hexpression, -⟩ := hps.delimiters
  grind

theorem list_ne_value : ps.listOpenToken ≠ .NUM ∧ ps.listOpenToken ≠ .STRING ∧
    ps.listOpenToken ≠ .IDENT := by
  obtain ⟨hlist, hexpression, -⟩ := hps.delimiters
  grind

theorem starts_ne_comma {t : Token} (ht : Starts ps t) : t ≠ .COMMA := by
  obtain ⟨hlist, hexpression, -⟩ := hps.delimiters
  rcases ht with rfl | rfl | rfl | rfl <;> grind

end ParserStyle.Proper

end tokens

/-! ### The steps of the parser -/

section steps

variable {ps : ParserStyle}

theorem punct_of_token {x : Lexeme D} {t : Token} (h : x.token = t) (hIDENT : t ≠ .IDENT)
    (hSTRING : t ≠ .STRING) (hNUM : t ≠ .NUM) : x = .punct t := by
  cases x <;> simp_all [Lexeme.token]

theorem closes_punct (hps : ps.Proper) {close : Token} (hclose : Closes ps close) {x : Lexeme D}
    (h : x.token = close) : x = .punct close := by
  refine punct_of_token h ?_ ?_ ?_ <;> rintro rfl
  · exact hps.starts_ne_close (.inr (.inr (.inl rfl))) hclose rfl
  · exact hps.starts_ne_close (.inr (.inl rfl)) hclose rfl
  · exact hps.starts_ne_close (.inl rfl) hclose rfl

theorem ParserStyle.Proper.open_punct (hps : ps.Proper) {x : Lexeme D}
    (h : x.token = ps.expressionOpenToken) : x = .punct ps.expressionOpenToken :=
  punct_of_token h (fun ht => hps.starts_ne_open (.inr (.inr (.inl rfl))) ht.symm)
    (fun ht => hps.starts_ne_open (.inr (.inl rfl)) ht.symm)
    (fun ht => hps.starts_ne_open (.inl rfl) ht.symm)

theorem ParserStyle.Proper.list_punct (hps : ps.Proper) {x : Lexeme D}
    (h : x.token = ps.listOpenToken) : x = .punct ps.listOpenToken := by
  obtain ⟨hNUM, hSTRING, hIDENT⟩ := hps.list_ne_value
  exact punct_of_token h hIDENT hSTRING hNUM

/-- What stands before an element: nothing before the first one. -/
def Gap (ps : ParserStyle) : Bool → Located D → Prop
  | true, sep => sep = []
  | false, sep => Separator ps sep

/-- What `parse_list` has still to read before its closing token. -/
def Body (ps : ParserStyle) : Bool → Located D → List (Value D) → Prop
  | true => Elems ps
  | false => More ps

theorem Body.nil (first : Bool) : Body (D := D) ps first [] [] := by
  cases first
  · exact More.nil
  · exact Elems.nil

theorem Body.cons {first : Bool} {sep p q : Located D} {v : Value D} {vs : List (Value D)}
    (hgap : Gap ps first sep) (hterm : Term ps p v) (hmore : More ps q vs) :
    Body ps first (sep ++ (p ++ q)) (v :: vs) := by
  cases first with
  | false => exact More.cons hgap hterm hmore
  | true =>
    obtain rfl : sep = [] := hgap
    have h : Elems ps (p ++ q) (v :: vs) := .cons hterm hmore
    exact h

theorem Body.inv {first : Bool} {q : Located D} {vs : List (Value D)} (h : Body ps first q vs) :
    q = [] ∧ vs = [] ∨ ∃ sep p q' v vs', q = sep ++ (p ++ q') ∧ vs = v :: vs' ∧
      Gap ps first sep ∧ Term ps p v ∧ More ps q' vs' := by
  cases first with
  | false =>
    cases h with
    | nil => exact .inl ⟨rfl, rfl⟩
    | cons hsep hterm hmore => exact .inr ⟨_, _, _, _, _, rfl, rfl, hsep, hterm, hmore⟩
  | true =>
    cases h with
    | nil => exact .inl ⟨rfl, rfl⟩
    | cons hterm hmore => exact .inr ⟨[], _, _, _, _, rfl, rfl, rfl, hterm, hmore⟩

variable [NumGet D]

theorem expect_false (t : Token) (L : Lexer D) :
    expect t false L = if L.currentToken_ = t then .ok () L
      else throwHere (tokenName t ++ " expected") L := by
  by_cases h : L.currentToken_ = t <;>
    simp [expect, bind, EStateM.bind, currentToken, h]

/-- `parse_list` between two elements: a comma is taken, any other token is given back unless the
comma is required. -/
theorem parseSeparator_eq (first : Bool) (L : Lexer D) :
    parseSeparator ps first L =
      if first then .ok () L.putback
      else if L.currentToken_ = .COMMA then .ok () L
      else
        match ps.commaStyle with
        | .commaRequired => throwHere (tokenName .COMMA ++ " expected") L
        | .commaOptional => .ok () L.putback := by
  cases first with
  | true => rfl
  | false =>
    cases hstyle : ps.commaStyle <;>
      by_cases hcomma : L.currentToken_ = .COMMA <;>
      simp [parseSeparator, hstyle, expect_false, hcomma, bind, EStateM.bind, currentToken, unget]

theorem parseSeparator_cases (first : Bool) (L : Lexer D) :
    parseSeparator ps first L = .ok () L.putback ∨
      parseSeparator ps first L = throwHere (tokenName .COMMA ++ " expected") L ∨
      (L.currentToken_ = .COMMA ∧ parseSeparator ps first L = .ok () L) := by
  rw [parseSeparator_eq]
  split_ifs with hfirst hcomma
  · exact .inl rfl
  · exact .inr (.inr ⟨hcomma, rfl⟩)
  · cases ps.commaStyle with
    | commaRequired => exact .inr (.inl rfl)
    | commaOptional => exact .inl rfl

theorem expect_true (t : Token) {L L' : Lexer D} {tt : Token} (h : getToken L = .ok tt L') :
    expect t true L = if tt = t then .ok () L' else throwHere (tokenName t ++ " expected") L' := by
  simp only [expect, if_true]
  rw [Call.bind_ok h]
  by_cases htt : tt = t <;> simp [htt]

theorem expect_ok {t : Token} {L L' : Lexer D} (h : expect t true L = .ok () L') :
    getToken L = .ok t L' := by
  cases hget : getToken L with
  | ok tt L₁ =>
    rw [expect_true t hget] at h
    split_ifs at h with htt
    · obtain rfl : L₁ = L' := by simpa using h
      rw [htt]
    · simp [throwHere] at h
  | error e L₁ =>
    simp only [expect, if_true] at h
    rw [Call.bind_error hget] at h
    cases h

/-- The ways in which `parse_term` returns. -/
inductive TermRun (ps : ParserStyle) (fuel : ℕ) (L : Lexer D) : Value D → Lexer D → Prop where
  | num {L₁ : Lexer D} (hget : getToken L = .ok .NUM L₁) : TermRun ps fuel L (.num L₁.numValue_) L₁
  | string {L₁ : Lexer D} (hget : getToken L = .ok .STRING L₁) :
      TermRun ps fuel L (.string L₁.stringValue_) L₁
  | expression {L₁ L₂ L' : Lexer D} {vs : List (Value D)} (hget : getToken L = .ok .IDENT L₁)
      (hget' : getToken L₁ = .ok ps.expressionOpenToken L₂)
      (hlist : parseListLoop ps ps.expressionCloseToken fuel true L₂ = .ok vs L') :
      TermRun ps fuel L (.expression L₁.stringValue_ vs) L'
  | ident {L₁ L₂ : Lexer D} {t : Token} (hget : getToken L = .ok .IDENT L₁)
      (hget' : getToken L₁ = .ok t L₂) (hopen : t ≠ ps.expressionOpenToken) :
      TermRun ps fuel L (.string L₁.stringValue_) L₂.putback
  | list {L₁ L' : Lexer D} {vs : List (Value D)} (hget : getToken L = .ok ps.listOpenToken L₁)
      (hvalue : ps.listOpenToken ∉ [Token.NUM, .STRING, .IDENT])
      (hlist : parseListLoop ps ps.listCloseToken fuel true L₁ = .ok vs L') :
      TermRun ps fuel L (.list vs) L'

theorem parseTermLoop_ok {fuel : ℕ} {v : Value D} {L L' : Lexer D}
    (h : parseTermLoop ps (fuel + 1) L = .ok v L') : TermRun ps fuel L v L' := by
  rw [parseTermLoop] at h
  obtain ⟨t, L₁, hget, h⟩ := Call.of_bind_ok h
  obtain ⟨-, hcurrent, -⟩ := getToken_ok hget
  split_ifs at h with hNUM hSTRING hIDENT hopen
  · subst hNUM
    rw [Call.bind_ok (numValue_num (num_of_token hcurrent))] at h
    cases h
    exact .num hget
  · subst hSTRING
    rw [Call.bind_ok (stringValue_string (string_of_token hcurrent))] at h
    cases h
    exact .string hget
  · subst hIDENT
    rw [Call.bind_ok (stringValue_ident (ident_of_token hcurrent))] at h
    obtain ⟨t', L₂, hget', h⟩ := Call.of_bind_ok h
    split_ifs at h with hexpression
    · subst hexpression
      obtain ⟨vs, L₃, hlist, h⟩ := Call.of_bind_ok h
      cases h
      exact .expression hget hget' hlist
    · cases h
      exact .ident hget hget' hexpression
  · subst hopen
    obtain ⟨vs, L₂, hlist, h⟩ := Call.of_bind_ok h
    cases h
    exact .list hget (by simp [hNUM, hSTRING, hIDENT]) hlist
  · cases h

/-- The ways in which `parse_list` returns from a test of its loop on. -/
inductive ListRun (ps : ParserStyle) (close : Token) (fuel : ℕ) (first : Bool) (L : Lexer D) :
    List (Value D) → Lexer D → Prop where
  | closed {L₁ : Lexer D} (hget : getToken L = .ok close L₁) : ListRun ps close fuel first L [] L₁
  | element {t : Token} {L₁ L₂ L₃ L' : Lexer D} {v : Value D} {vs : List (Value D)}
      (hget : getToken L = .ok t L₁) (hne : t ≠ close)
      (hsep : parseSeparator ps first L₁ = .ok () L₂) (hterm : parseTermLoop ps fuel L₂ = .ok v L₃)
      (hlist : parseListLoop ps close fuel false L₃ = .ok vs L') :
      ListRun ps close fuel first L (v :: vs) L'

theorem parseListLoop_ok {close : Token} {fuel : ℕ} {first : Bool} {vs : List (Value D)}
    {L L' : Lexer D} (h : parseListLoop ps close (fuel + 1) first L = .ok vs L') :
    ListRun ps close fuel first L vs L' := by
  rw [parseListLoop] at h
  obtain ⟨t, L₁, hget, h⟩ := Call.of_bind_ok h
  split_ifs at h with hclosed
  · cases h
    exact .closed (hclosed ▸ hget)
  · obtain ⟨_, L₂, hsep, h⟩ := Call.of_bind_ok h
    obtain ⟨v, L₃, hterm, h⟩ := Call.of_bind_ok h
    obtain ⟨vs', L₄, hlist, h⟩ := Call.of_bind_ok h
    cases h
    exact .element hget hclosed hsep hterm hlist

/-- The ways in which `parse_pair` returns. -/
inductive PairRun (ps : ParserStyle) (L : Lexer D) : Option (Pair D) → Lexer D → Prop where
  | none {t : Token} {L₁ : Lexer D} (hget : getToken L = .ok t L₁) (hne : t ≠ .IDENT) :
      PairRun ps L none L₁
  | some {L₁ L₂ L' : Lexer D} {v : Value D} (hget : getToken L = .ok .IDENT L₁)
      (hassign : getToken L₁ = .ok .ASSIGN L₂) (hparse : parseTerm ps L₂ = .ok v L') :
      PairRun ps L (some ⟨L₁.stringValue_, v, L₁.lineNo_, L₁.filename_⟩) L'

theorem parsePair_ok {o : Option (Pair D)} {L L' : Lexer D} (h : parsePair ps L = .ok o L') :
    PairRun ps L o L' := by
  unfold parsePair at h
  obtain ⟨t, L₁, hget, h⟩ := Call.of_bind_ok h
  split_ifs at h with ht
  · cases h
    exact .none hget ht
  · obtain rfl : t = .IDENT := not_not.1 ht
    obtain ⟨lineNo, _, hline, h⟩ := Call.of_bind_ok h
    cases hline
    obtain ⟨filename, _, hfile, h⟩ := Call.of_bind_ok h
    cases hfile
    rw [Call.bind_ok (stringValue_ident (ident_of_token (getToken_ok hget).2.1))] at h
    obtain ⟨_, L₂, hexpect, h⟩ := Call.of_bind_ok h
    obtain ⟨v, L₃, hparse, h⟩ := Call.of_bind_ok h
    cases h
    exact .some hget (expect_ok hexpect) hparse

end steps

end Nanonet
