import Nanonet.Registry.Scan

/-!
# The token sequence of a lexer

`tokens L` is what repeated `get_token()` calls on `L` return, each token with its value and the
line number the lexer reports for it, up to the `END` or the exception that ends the sequence. The
parser is verified against this sequence: `getToken_cons`, `getToken_nil` and `getToken_error` say
what one call does to it, and a `putback()` after the call restores it.
-/

namespace Nanonet

/-- A token with the value the lexer holds for it. -/
inductive Lexeme (D : Type) where
  | ident (name : Text)
  | string (value : Text)
  | num (value : D)
  | punct (t : Token)
  deriving DecidableEq, Repr

def Lexeme.token {D : Type} : Lexeme D → Token
  | .ident _ => .IDENT
  | .string _ => .STRING
  | .num _ => .NUM
  | .punct t => t

/-- How a token sequence ends: at `END`, or at an exception. -/
inductive Ending where
  | finished
  | thrown (e : Exn)
  deriving DecidableEq, Repr

/-- A token sequence: lexemes with their line numbers, and the ending. -/
structure Tokens (D : Type) where
  list : List (Lexeme D × Nat)
  ending : Ending
  deriving DecidableEq, Repr

namespace Lexer

variable {D : Type}

def lexeme (L : Lexer D) : Lexeme D :=
  match L.currentToken_ with
  | .IDENT => .ident L.stringValue_
  | .STRING => .string L.stringValue_
  | .NUM => .num L.numValue_
  | t => .punct t

@[simp] theorem token_lexeme (L : Lexer D) : L.lexeme.token = L.currentToken_ := by
  unfold lexeme
  split <;> simp_all [Lexeme.token]

theorem stringValue_ident {L : Lexer D} {name : Text} (h : L.lexeme = .ident name) :
    stringValue L = .ok name L := by
  have htoken := congrArg Lexeme.token h
  rw [token_lexeme, Lexeme.token] at htoken
  obtain rfl : L.stringValue_ = name := by simpa [lexeme, htoken] using h
  simp [stringValue, htoken]

theorem stringValue_string {L : Lexer D} {value : Text} (h : L.lexeme = .string value) :
    stringValue L = .ok value L := by
  have htoken := congrArg Lexeme.token h
  rw [token_lexeme, Lexeme.token] at htoken
  obtain rfl : L.stringValue_ = value := by simpa [lexeme, htoken] using h
  simp [stringValue, htoken]

theorem numValue_num {L : Lexer D} {d : D} (h : L.lexeme = .num d) : numValue L = .ok d L := by
  have htoken := congrArg Lexeme.token h
  rw [token_lexeme, Lexeme.token] at htoken
  obtain rfl : L.numValue_ = d := by simpa [lexeme, htoken] using h
  simp [numValue, htoken]

theorem ident_of_token {L : Lexer D} (h : L.currentToken_ = .IDENT) :
    L.lexeme = .ident L.stringValue_ := by
  simp [lexeme, h]

theorem string_of_token {L : Lexer D} (h : L.currentToken_ = .STRING) :
    L.lexeme = .string L.stringValue_ := by
  simp [lexeme, h]

theorem num_of_token {L : Lexer D} (h : L.currentToken_ = .NUM) : L.lexeme = .num L.numValue_ := by
  simp [lexeme, h]

variable [NumGet D]

/-- The tokens of the text, `fuel` of them at most. -/
def readTokens : Nat → Lexer D → Tokens D
  | 0, _ => ⟨[], .thrown .outOfFuel⟩
  | fuel + 1, L =>
    match read L with
    | .error e _ => ⟨[], .thrown e⟩
    | .ok t L' =>
      if t = .END then ⟨[], .finished⟩
      else ⟨(L'.lexeme, L'.lineNo_) :: (readTokens fuel L').list, (readTokens fuel L').ending⟩

/-- The token sequence of the text, nothing held. -/
def unread (L : Lexer D) : Tokens D := readTokens (L.is.rest.length + 1) { L with hold := false }

/-- The token sequence still to come, a held token first. -/
def tokens (L : Lexer D) : Tokens D :=
  if L.hold then
    if L.currentToken_ = .END then ⟨[], .finished⟩
    else ⟨(L.lexeme, L.lineNo_) :: L.unread.list, L.unread.ending⟩
  else L.unread

theorem readTokens_fuel {n m : Nat} {L : Lexer D} (hn : L.is.rest.length < n)
    (hm : L.is.rest.length < m) : readTokens n L = readTokens m L := by
  induction n generalizing m L with
  | zero => omega
  | succ n ih =>
    obtain ⟨m, rfl⟩ : ∃ k, m = k + 1 := ⟨m - 1, by omega⟩
    rw [readTokens, readTokens]
    cases hread : read L with
    | error e L' => rfl
    | ok t L' =>
      dsimp only
      split
      · rfl
      · next hne =>
        have hlt := (read_spec L).2 t L' hread hne
        rw [ih (m := m) (by omega) (by omega)]

theorem tokens_eq {L : Lexer D} (hold : L.hold = false) :
    L.tokens = match read L with
      | .error e _ => ⟨[], .thrown e⟩
      | .ok t L' =>
        if t = .END then ⟨[], .finished⟩
        else ⟨(L'.lexeme, L'.lineNo_) :: L'.tokens.list, L'.tokens.ending⟩ := by
  have hsame : { L with hold := false } = L := by cases L; simp_all
  rw [tokens, if_neg (by simp [hold]), unread, hsame, readTokens]
  cases hread : read L with
  | error e L' => rfl
  | ok t L' =>
    dsimp only
    split
    · rfl
    · next hne =>
      have hadv := (read_spec L).1
      rw [hread] at hadv
      have hold' : L'.hold = false := hadv.1.hold.trans hold
      have hsame' : { L' with hold := false } = L' := by cases L'; simp_all
      have hlt := (read_spec L).2 t L' hread hne
      rw [tokens, if_neg (by simp [hold']), unread, hsame',
        readTokens_fuel hlt (Nat.lt_succ_self L'.is.rest.length)]

theorem tokens_of_END {L L' : Lexer D} (hold : L.hold = false) (h : read L = .ok .END L') :
    L.tokens = ⟨[], .finished⟩ := by
  rw [tokens_eq hold, h]
  exact if_pos rfl

theorem tokens_of_read {L L' : Lexer D} {t : Token} (hold : L.hold = false)
    (h : read L = .ok t L') (hne : t ≠ .END) :
    L.tokens = ⟨(L'.lexeme, L'.lineNo_) :: L'.tokens.list, L'.tokens.ending⟩ := by
  rw [tokens_eq hold, h]
  exact if_neg hne

/-! ### One call of `get_token` -/

theorem getToken_of_hold {L : Lexer D} (hold : L.hold = false) : getToken L = read L := by
  simp [getToken, hold]

/-- The lexer has just returned `x`, and `rest` is still to come. -/
structure At (L : Lexer D) (x : Lexeme D × Nat) (rest : Tokens D) : Prop where
  lexeme : L.lexeme = x.1
  line : L.lineNo_ = x.2
  hold : L.hold = false
  tokens : L.tokens = rest

theorem At.currentToken {L : Lexer D} {x : Lexeme D × Nat} {rest : Tokens D} (h : At L x rest) :
    L.currentToken_ = x.1.token := by
  rw [← token_lexeme, h.lexeme]

theorem tokens_putback {L : Lexer D} (hold : L.hold = false) :
    L.putback.tokens =
      if L.currentToken_ = .END then ⟨[], .finished⟩
      else ⟨(L.lexeme, L.lineNo_) :: L.tokens.list, L.tokens.ending⟩ := by
  have htokens : L.tokens = L.unread := if_neg (by simp [hold])
  rw [htokens]
  exact if_pos rfl

theorem At.putback {L : Lexer D} {x : Lexeme D × Nat} {rest : Tokens D} (h : At L x rest)
    (hne : x.1.token ≠ .END) : L.putback.tokens = ⟨x :: rest.list, rest.ending⟩ := by
  rw [tokens_putback h.hold, if_neg (h.currentToken ▸ hne), h.tokens, h.lexeme, h.line]

theorem getToken_spec (L : Lexer D) :
    match getToken L with
    | .error e _ => L.tokens = ⟨[], .thrown e⟩
    | .ok t L' => L'.filename_ = L.filename_ ∧ L'.hold = false ∧ L'.currentToken_ = t ∧
        L.tokens = if t = .END then ⟨[], .finished⟩
          else ⟨(L'.lexeme, L'.lineNo_) :: L'.tokens.list, L'.tokens.ending⟩ := by
  unfold getToken
  cases hold : L.hold with
  | true =>
    refine ⟨rfl, rfl, rfl, ?_⟩
    simp only [tokens, hold, if_true]
    rfl
  | false =>
    have hadv := (read_spec L).1
    rw [tokens_eq hold]
    simp only [Bool.false_eq_true, if_false]
    cases hread : read L with
    | error e L' => rfl
    | ok t L' =>
      rw [hread] at hadv
      exact ⟨hadv.1.filename, hadv.1.hold.trans hold, hadv.2.1, rfl⟩

theorem getToken_cons {L : Lexer D} {x : Lexeme D × Nat} {xs : List (Lexeme D × Nat)} {e : Ending}
    (h : L.tokens = ⟨x :: xs, e⟩) :
    x.1.token ≠ .END ∧
      ∃ L', getToken L = .ok x.1.token L' ∧ At L' x ⟨xs, e⟩ ∧ L'.filename_ = L.filename_ := by
  have hspec := getToken_spec L
  cases hget : getToken L with
  | error e' L' => simp [hget, h] at hspec
  | ok t L' =>
    rw [hget] at hspec
    obtain ⟨hfile, hold, rfl, htokens⟩ := hspec
    split_ifs at htokens with hEND
    · simp [h] at htokens
    · obtain ⟨⟨rfl, rfl⟩, rfl⟩ : (x = (L'.lexeme, L'.lineNo_) ∧ xs = _) ∧ e = _ := by
        simpa [h] using htokens
      rw [token_lexeme]
      exact ⟨hEND, L', rfl, ⟨rfl, rfl, hold, rfl⟩, hfile⟩

theorem getToken_nil {L : Lexer D} (h : L.tokens = ⟨[], .finished⟩) :
    ∃ L', getToken L = .ok .END L' ∧ L'.currentToken_ = .END ∧
      L'.putback.tokens = ⟨[], .finished⟩ ∧ L'.filename_ = L.filename_ := by
  have hspec := getToken_spec L
  cases hget : getToken L with
  | error e' L' => simp [hget, h] at hspec
  | ok t L' =>
    rw [hget] at hspec
    obtain ⟨hfile, hold, rfl, htokens⟩ := hspec
    split_ifs at htokens with hEND
    · refine ⟨L', by rw [hEND], hEND, ?_, hfile⟩
      rw [tokens_putback hold, if_pos hEND]
    · simp [h] at htokens

theorem getToken_error {L : Lexer D} {e : Exn} (h : L.tokens = ⟨[], .thrown e⟩) :
    ∃ L', getToken L = .error e L' := by
  have hspec := getToken_spec L
  cases hget : getToken L with
  | error e' L' =>
    obtain rfl : e = e' := by simpa [hget, h] using hspec
    exact ⟨L', rfl⟩
  | ok t L' =>
    rw [hget] at hspec
    obtain ⟨-, -, -, htokens⟩ := hspec
    split_ifs at htokens <;> simp [h] at htokens

/-- What a call that returned `t` says about the tokens before and after it. -/
theorem getToken_ok {L L' : Lexer D} {t : Token} (h : getToken L = .ok t L') :
    L'.filename_ = L.filename_ ∧ L'.currentToken_ = t ∧
      (t = .END ∧ L.tokens = ⟨[], .finished⟩ ∧ L'.putback.tokens = ⟨[], .finished⟩ ∨
        t ≠ .END ∧ ∃ x, x.1.token = t ∧ At L' x L'.tokens ∧
          L.tokens = ⟨x :: L'.tokens.list, L'.tokens.ending⟩) := by
  have hspec := getToken_spec L
  rw [h] at hspec
  obtain ⟨hfile, hold, rfl, htokens⟩ := hspec
  refine ⟨hfile, rfl, ?_⟩
  split_ifs at htokens with hEND
  · refine .inl ⟨hEND, htokens, ?_⟩
    rw [tokens_putback hold, if_pos hEND]
  · exact .inr ⟨hEND, (L'.lexeme, L'.lineNo_), token_lexeme L', ⟨rfl, rfl, hold, rfl⟩, htokens⟩

theorem getToken_putback {L L' : Lexer D} {t : Token} (h : getToken L = .ok t L') :
    getToken L'.putback = .ok t L' := by
  have hspec := getToken_spec L
  rw [h] at hspec
  obtain ⟨-, hold, rfl, -⟩ := hspec
  cases L'
  cases hold
  rfl

/-- A token that is not the end of the text stood first, with the value and the line that the lexer
holds now. -/
theorem getToken_lexeme {L L' : Lexer D} {t : Token} (h : getToken L = .ok t L') (hne : t ≠ .END) :
    L'.filename_ = L.filename_ ∧ L'.currentToken_ = t ∧
      L.tokens = ⟨(L'.lexeme, L'.lineNo_) :: L'.tokens.list, L'.tokens.ending⟩ := by
  obtain ⟨hfile, hcurrent, ⟨rfl, -⟩ | ⟨-, x, -, hat, htokens⟩⟩ := getToken_ok h
  · exact absurd rfl hne
  · exact ⟨hfile, hcurrent, by rw [htokens, hat.lexeme, hat.line]⟩

theorem tokens_thrown {L : Lexer D} {e : Exn} (h : L.tokens.ending = .thrown e) : e.IsRuntime := by
  suffices hread : ∀ n, ∀ L : Lexer D, L.is.rest.length < n →
      (readTokens n L).ending = .thrown e → e.IsRuntime by
    have hunread := hread _ { L with hold := false } (Nat.lt_succ_self L.is.rest.length)
    unfold tokens at h
    split_ifs at h
    · exact hunread h
    · exact hunread h
  intro n
  induction n with
  | zero => intro L h; omega
  | succ n ih =>
    intro L hlen h
    rw [readTokens] at h
    cases hread : read L with
    | error e' L' =>
      have hadv := (read_spec L).1
      obtain rfl : e' = e := by simpa [hread] using h
      rw [hread] at hadv
      exact hadv
    | ok t L' =>
      rw [hread] at h
      dsimp only at h
      split at h
      · simp at h
      · next hne =>
        have hlt := (read_spec L).2 t L' hread hne
        exact ih L' (by omega) h

theorem getToken_throws {L L' : Lexer D} {e : Exn} (h : getToken L = .error e L') :
    L.tokens = ⟨[], .thrown e⟩ ∧ e.IsRuntime := by
  have hspec := getToken_spec L
  rw [h] at hspec
  exact ⟨hspec, tokens_thrown (congrArg Tokens.ending hspec)⟩

/-- The next `get_token()` returns the first token of `rest`, or ends as `rest` does. -/
def Yields (L : Lexer D) (rest : Tokens D) : Prop :=
  match rest with
  | ⟨x :: _, _⟩ => ∃ L', getToken L = .ok x.1.token L' ∧ L'.lexeme = x.1
  | ⟨[], .finished⟩ => ∃ L', getToken L = .ok .END L'
  | ⟨[], .thrown e⟩ => ∃ L', getToken L = .error e L'

theorem yields_tokens (L : Lexer D) : L.Yields L.tokens := by
  rcases h : L.tokens with ⟨_ | ⟨x, xs⟩, _ | e⟩
  · obtain ⟨L', hget, -⟩ := getToken_nil h
    exact ⟨L', hget⟩
  · exact getToken_error h
  · obtain ⟨-, L', hget, hat, -⟩ := getToken_cons h
    exact ⟨L', hget, hat.lexeme⟩
  · obtain ⟨-, L', hget, hat, -⟩ := getToken_cons h
    exact ⟨L', hget, hat.lexeme⟩

theorem tokens_length (L : Lexer D) :
    L.tokens.list.length ≤ L.is.rest.length + (if L.hold then 1 else 0) := by
  suffices hread : ∀ n, ∀ L : Lexer D, (readTokens n L).list.length ≤ L.is.rest.length by
    have hunread : L.unread.list.length ≤ L.is.rest.length := hread _ _
    unfold tokens
    split_ifs <;> simp <;> omega
  intro n
  induction n with
  | zero => intro L; simp [readTokens]
  | succ n ih =>
    intro L
    rw [readTokens]
    cases hread : read L with
    | error e L' => simp
    | ok t L' =>
      dsimp only
      split
      · simp
      · next hne =>
        have hlt := (read_spec L).2 t L' hread hne
        have := ih L'
        simp only [List.length_cons]
        omega

end Lexer

end Nanonet
