import Nanonet.Registry.Derivation
import Nanonet.Registry.Store

/-!
# Reading terminates

The loops of the lexer as the source has them, with a bound on their turns: any bound above the number
of characters left is enough (`loopsEnd`). Above them, `remaining` counts the characters that are left
and one more for a held token, unless that is `END`, which is returned again and again. No call of
`get_token` makes it larger, and one that returns another token than `END` makes it smaller, so
`parse_term` and `parse_list` have less to read after every token that they do not give back
(`parse_remaining`), whatever the delimiters are as long as a list is not closed by `END`.
-/

namespace Nanonet

open Lexer

/-! ### The loops of the lexer -/

/-- `while( is.get( c ) && p( c ) ) { .. }`, with at most `fuel` tests of its condition. -/
def whileGet (p : Char → Bool) : ℕ → IStream → Option (Text × Option Char × IStream)
  | 0, _ => none
  | fuel + 1, is =>
    match is.get with
    | (none, is) => some ([], none, is)
    | (some c, is) =>
      if p c then (whileGet p fuel is).map fun r => (c :: r.1, r.2) else some ([], some c, is)

/-- `munch_till_asterisks_slash`, with at most `fuel` tests of its condition, those after a jump to
`restart` among them: the stream and the line number. -/
def munchLoop : ℕ → IStream → ℕ → Option (IStream × ℕ)
  | 0, _, _ => none
  | fuel + 1, is, line =>
    match is.get with
    | (none, is) => some (is, line)
    | (some c, is) =>
      if c ≠ '*' then munchLoop fuel is (line + (isnewline c).toNat)
      else
        match is.peek with
        | (none, is) => some (is, line)
        | (some d, is) => if d ≠ '/' then munchLoop fuel is line else some (is.ignore, line)

/-- The loop of the quoted string, with at most `fuel` turns. -/
def stringLoop (quote : Char) : ℕ → IStream → Option (Text × Option String × IStream)
  | 0, _ => none
  | fuel + 1, is =>
    match is.get with
    | (none, is) => some ([], some "unterminated string", is)
    | (some c, is) =>
      if isnewline c then some ([], some "unterminated string", is)
      else if c = quote then some ([], none, is)
      else if c = '\\' then
        match is.get with
        | (none, is) => some ([], some "bad escape sequence", is)
        | (some cc, is) =>
          if quote ≠ cc ∧ 'n' ≠ cc ∧ '\\' ≠ cc then some ([], some "bad escape sequence", is)
          else
            let c := if quote = cc then quote else if 'n' = cc then '\n' else '\\'
            (stringLoop quote fuel is).map fun r => (c :: r.1, r.2)
      else (stringLoop quote fuel is).map fun r => (c :: r.1, r.2)

theorem get_length {is is' : IStream} {c : Char} (h : is.get = (some c, is')) :
    is'.rest.length < is.rest.length := by
  unfold IStream.get at h
  split at h
  · split at h
    · cases h
    · next hrest =>
      cases h
      rw [hrest]
      exact Nat.lt_succ_self _
  · cases h

theorem whileGet_eq {p : Char → Bool} {fuel : ℕ} {is : IStream} (h : is.rest.length < fuel) :
    whileGet p fuel is = some (is.getWhile p) := by
  induction fuel generalizing is with
  | zero => omega
  | succ fuel ih =>
    rw [whileGet, IStream.getWhile_eq]
    rcases hget : is.get with ⟨_ | c, is'⟩
    · rfl
    · have hlen := get_length hget
      dsimp only
      split_ifs
      · rw [ih (by omega)]
        rfl
      · rfl

theorem munchLoop_text {fuel : ℕ} {text : Text} (line : ℕ) (h : text.length < fuel) :
    munchLoop fuel ⟨text, false, false⟩ line = some (munchText text line) := by
  induction fuel generalizing text line with
  | zero => omega
  | succ fuel ih =>
    rw [munchLoop]
    rcases text with _ | ⟨c, cs⟩
    · rfl
    · rw [List.length_cons] at h
      simp only [IStream.get, IStream.good_mk, if_true]
      by_cases hc : c = '*'
      · rw [if_neg (not_not_intro hc)]
        rcases cs with _ | ⟨d, ds⟩
        · rw [munchText, if_pos hc]
          rfl
        · rw [munchText, if_pos hc]
          simp only [IStream.peek, IStream.good_mk, if_true]
          by_cases hd : d = '/'
          · rw [if_neg (not_not_intro hd), if_pos hd]
            rfl
          · rw [if_pos hd, if_neg hd]
            exact ih line (by omega)
      · have hmunch : munchText (c :: cs) line = munchText cs (line + (isnewline c).toNat) := by
          rw [munchText.eq_def]
          exact if_neg hc
        rw [if_pos hc, ih _ (by omega), hmunch]

theorem munchLoop_eq {D : Type} {L : Lexer D} {fuel : ℕ} (h : L.is.rest.length < fuel) :
    munchLoop fuel L.is L.lineNo_ =
      some ((munchTillAsterisksSlash L).is, (munchTillAsterisksSlash L).lineNo_) := by
  unfold munchTillAsterisksSlash
  split_ifs with hgood
  · rcases his : L.is with ⟨rest, eof, fail⟩
    rw [his] at hgood h
    obtain ⟨rfl, rfl⟩ : eof = false ∧ fail = false := by simpa [IStream.good] using hgood
    exact munchLoop_text L.lineNo_ h
  · obtain ⟨fuel, rfl⟩ : ∃ n, fuel = n + 1 := ⟨fuel - 1, by omega⟩
    rw [munchLoop, IStream.get, if_neg hgood]

theorem stringLoop_eq {quote : Char} {fuel : ℕ} {text : Text} (h : text.length < fuel) :
    stringLoop quote fuel ⟨text, false, false⟩ = some (stringBody quote text) := by
  induction fuel generalizing text with
  | zero => omega
  | succ fuel ih =>
    rw [stringLoop]
    rcases text with _ | ⟨c, cs⟩
    · rfl
    · rw [List.length_cons] at h
      rw [stringBody.eq_def]
      simp only [IStream.get, IStream.good_mk, if_true]
      split_ifs with hline hquote hescape
      · rfl
      · rfl
      · rcases cs with _ | ⟨cc, ds⟩
        · rfl
        · rw [List.length_cons] at h
          dsimp only
          split_ifs
          all_goals first | rfl | (rw [ih (by omega)]; rfl)
      · rw [ih (by omega)]
        rfl

/-! ### What is left to read -/

variable {D : Type}

section defined

variable {σ α β : Type}

/-- The call returns, or throws a `std::runtime_error`. -/
def Defined (r : EStateM.Result Exn σ α) : Prop :=
  (∃ a s, r = .ok a s) ∨ ∃ what s, r = .error (.runtimeError what) s

theorem defined_ok (a : α) (s : σ) : Defined (.ok a s) := .inl ⟨a, s, rfl⟩

theorem defined_error (what : String) (s : σ) :
    Defined (.error (.runtimeError what) s : EStateM.Result Exn σ α) :=
  .inr ⟨what, s, rfl⟩

theorem Defined.isRuntime {r : EStateM.Result Exn σ α} (h : Defined r) {e : Exn} {s : σ}
    (hr : r = .error e s) : e.IsRuntime := by
  subst hr
  rcases h with ⟨_, _, h⟩ | ⟨what, _, h⟩
  · cases h
  · cases h
    exact ⟨what, rfl⟩

theorem Defined.bind {x : Call σ α} {f : α → Call σ β} {s : σ} (hx : Defined (x s))
    (hf : ∀ a s', x s = .ok a s' → Defined (f a s')) : Defined ((x >>= f) s) := by
  rcases hx with ⟨a, s', h⟩ | ⟨what, s', h⟩
  · rw [Call.bind_ok h]
    exact hf a s' h
  · rw [Call.bind_error h]
    exact defined_error what s'

theorem defined_onLexer {x : LexM D α} {L : Lexer D} (reg : Registry D) (h : Defined (x L)) :
    Defined (onLexer x (L, reg)) := by
  unfold onLexer
  rcases h with ⟨a, L', h⟩ | ⟨what, L', h⟩
  · simp only [h]
    exact defined_ok a _
  · simp only [h]
    exact defined_error what _

end defined

/-- The characters left, and one more while a token is held that is not `END`. -/
def Lexer.remaining (L : Lexer D) : ℕ :=
  L.is.rest.length + if L.hold = true ∧ L.currentToken_ ≠ .END then 1 else 0

/-- The delimiters are among `LP`, `LB` and `LBRACKET`, equal or different. -/
structure ParserStyle.Delimited (ps : ParserStyle) : Prop where
  list : ps.listDelimiter ∈ [Token.LP, .LB, .LBRACKET]
  expression : ps.expressionDelimiter ∈ [Token.LP, .LB, .LBRACKET]

theorem ParserStyle.Proper.delimited {ps : ParserStyle} (hps : ps.Proper) : ps.Delimited :=
  ⟨hps.list, hps.expression⟩

namespace ParserStyle.Delimited

variable {ps : ParserStyle} (hps : ps.Delimited)

include hps

theorem close_ne_END {close : Token} (hclose : Closes ps close) : close ≠ .END := by
  have hclosing : ∀ t ∈ [Token.LP, .LB, .LBRACKET], closingToken t ≠ .END := by decide
  rcases hclose with rfl | rfl
  · exact hclosing _ hps.list
  · exact hclosing _ hps.expression

theorem open_ne_END : ps.listOpenToken ≠ .END ∧ ps.expressionOpenToken ≠ .END := by
  have hopening : ∀ t ∈ [Token.LP, .LB, .LBRACKET], t ≠ .END := by decide
  exact ⟨hopening _ hps.list, hopening _ hps.expression⟩

end ParserStyle.Delimited

theorem remaining_of_not_hold {L : Lexer D} (hold : L.hold = false) :
    L.remaining = L.is.rest.length := by
  simp [remaining, hold]

theorem remaining_lt_parseBound (L : Lexer D) : 2 * L.remaining + 2 ≤ parseBound L := by
  unfold remaining parseBound
  by_cases hold : L.hold = true
  · rw [if_pos hold]
    split_ifs <;> omega
  · rw [if_neg hold, if_neg fun h => hold h.1]

variable [NumGet D] {ps : ParserStyle}

theorem getToken_remaining {L L' : Lexer D} {t : Token} (h : getToken L = .ok t L') :
    L'.putback.remaining ≤ L.remaining ∧
      L'.remaining + (if t = .END then 0 else 1) = L'.putback.remaining := by
  obtain ⟨-, hcurrent, -⟩ := getToken_ok h
  have hhold : L'.hold = false := by
    have hspec := getToken_spec L
    rw [h] at hspec
    exact hspec.2.1
  have hputback : L'.putback.remaining = L'.is.rest.length + if t = .END then 0 else 1 := by
    rw [← hcurrent]
    by_cases hEND : L'.currentToken_ = .END <;> simp [remaining, putback, hEND]
  refine ⟨?_, by rw [hputback, remaining_of_not_hold hhold]⟩
  rw [hputback]
  unfold getToken at h
  split at h
  · next hold =>
    obtain ⟨rfl, rfl⟩ : L.currentToken_ = t ∧ _ = L' := by simpa using h
    by_cases hEND : L.currentToken_ = .END <;> simp [remaining, hold, hEND]
  · next hold =>
    rw [remaining_of_not_hold (Bool.not_eq_true _ ▸ hold)]
    split_ifs with hEND
    · have hadvances := (read_spec L).1
      rw [h] at hadvances
      exact hadvances.2.2.1
    · exact (read_spec L).2 t L' h hEND

theorem getToken_remaining_lt {L L' : Lexer D} {t : Token} (h : getToken L = .ok t L')
    (hne : t ≠ .END) : L'.remaining < L.remaining := by
  obtain ⟨hle, heq⟩ := getToken_remaining h
  rw [if_neg hne] at heq
  omega

theorem getToken_remaining_le {L L' : Lexer D} {t : Token} (h : getToken L = .ok t L') :
    L'.remaining ≤ L.remaining := by
  obtain ⟨hle, heq⟩ := getToken_remaining h
  omega

theorem separator_remaining {first : Bool} {t : Token} {L L₁ L₂ : Lexer D}
    (hget : getToken L = .ok t L₁) (hsep : parseSeparator ps first L₁ = .ok () L₂) :
    L₂.remaining ≤ L.remaining := by
  rcases parseSeparator_cases first L₁ with h | h | ⟨-, h⟩
  · cases h.symm.trans hsep
    exact (getToken_remaining hget).1
  · cases h.symm.trans hsep
  · cases h.symm.trans hsep
    exact getToken_remaining_le hget

theorem parse_remaining (hps : ps.Delimited) (fuel : ℕ) :
    (∀ (v : Value D) (L L' : Lexer D),
      parseTermLoop ps fuel L = .ok v L' → L'.remaining < L.remaining) ∧
    (∀ (close : Token) (first : Bool) (vs : List (Value D)) (L L' : Lexer D), Closes ps close →
      parseListLoop ps close fuel first L = .ok vs L' → L'.remaining < L.remaining) := by
  induction fuel with
  | zero => exact ⟨fun v L L' h => (by cases h), fun close first vs L L' _ h => (by cases h)⟩
  | succ fuel ih =>
    refine ⟨fun v L L' h => ?_, fun close first vs L L' hclose h => ?_⟩
    · cases parseTermLoop_ok h with
      | num hget => exact getToken_remaining_lt hget (by decide)
      | string hget => exact getToken_remaining_lt hget (by decide)
      | expression hget hget' hlist =>
        have hident := getToken_remaining_lt hget (by decide)
        have hopen := getToken_remaining_le hget'
        have htail := ih.2 _ _ _ _ _ (.inr rfl) hlist
        omega
      | ident hget hget' _ =>
        exact (getToken_remaining hget').1.trans_lt (getToken_remaining_lt hget (by decide))
      | list hget _ hlist =>
        exact (ih.2 _ _ _ _ _ (.inl rfl) hlist).trans_le (getToken_remaining_le hget)
    · cases parseListLoop_ok h with
      | closed hget => exact getToken_remaining_lt hget (hps.close_ne_END hclose)
      | element hget _ hsep hterm hlist =>
        have helement := ih.1 _ _ _ hterm
        have hrest := ih.2 _ _ _ _ _ hclose hlist
        have hle := separator_remaining hget hsep
        omega

/-! ### The bound is enough -/

theorem defined_getToken (L : Lexer D) : Defined (getToken L) := by
  cases h : getToken L with
  | ok t L' => exact defined_ok t L'
  | error e L' =>
    obtain ⟨-, what, rfl⟩ := getToken_throws h
    exact defined_error what L'

theorem defined_expect (t : Token) (L : Lexer D) : Defined (expect t true L) := by
  cases hget : getToken L with
  | ok tt L' =>
    rw [expect_true t hget]
    split_ifs
    · exact defined_ok _ _
    · exact defined_error _ _
  | error e L' =>
    obtain ⟨-, what, rfl⟩ := getToken_throws hget
    simp only [expect, if_true]
    rw [Call.bind_error hget]
    exact defined_error what L'

theorem defined_parseSeparator (first : Bool) (L : Lexer D) :
    Defined (parseSeparator ps first L) := by
  rcases parseSeparator_cases first L with h | h | ⟨-, h⟩
  · rw [h]
    exact defined_ok _ _
  · rw [h]
    exact defined_error _ _
  · rw [h]
    exact defined_ok _ _

theorem parse_total (hps : ps.Delimited) (fuel : ℕ) :
    (∀ L : Lexer D, 2 * L.remaining + 1 ≤ fuel → Defined (parseTermLoop ps fuel L)) ∧
    (∀ (close : Token) (first : Bool) (L : Lexer D), Closes ps close →
      2 * L.remaining + 2 ≤ fuel → Defined (parseListLoop ps close fuel first L)) := by
  induction fuel with
  | zero => exact ⟨fun L h => by omega, fun close first L _ h => by omega⟩
  | succ fuel ih =>
    refine ⟨fun L hfuel => ?_, fun close first L hclose hfuel => ?_⟩
    · rw [parseTermLoop]
      apply (defined_getToken L).bind
      intro t L₁ hget
      obtain ⟨-, hcurrent, -⟩ := getToken_ok hget
      split_ifs with hNUM hSTRING hIDENT hopen
      · rw [Call.bind_ok (numValue_num (num_of_token (hcurrent.trans hNUM)))]
        exact defined_ok _ _
      · rw [Call.bind_ok (stringValue_string (string_of_token (hcurrent.trans hSTRING)))]
        exact defined_ok _ _
      · subst hIDENT
        rw [Call.bind_ok (stringValue_ident (ident_of_token hcurrent))]
        apply (defined_getToken L₁).bind
        intro t' L₂ hget'
        split_ifs with hexpression
        · have hident := getToken_remaining_lt hget (by decide)
          have hopen := getToken_remaining_le hget'
          exact (ih.2 _ _ L₂ (.inr rfl) (by omega)).bind fun _ _ _ => defined_ok _ _
        · exact Defined.bind (defined_ok _ _) fun _ _ _ => defined_ok _ _
      · have hlist := getToken_remaining_lt hget (hopen ▸ hps.open_ne_END.1)
        exact (ih.2 _ _ L₁ (.inl rfl) (by omega)).bind fun _ _ _ => defined_ok _ _
      · exact defined_error _ _
    · rw [parseListLoop]
      apply (defined_getToken L).bind
      intro t L₁ hget
      split_ifs
      · exact defined_ok _ _
      · apply (defined_parseSeparator first L₁).bind
        intro _ L₂ hsep
        have hle := separator_remaining hget hsep
        apply (ih.1 L₂ (by omega)).bind
        intro v L₃ hterm
        have hlt := (parse_remaining hps fuel).1 v L₂ L₃ hterm
        exact (ih.2 close false L₃ hclose (by omega)).bind fun _ _ _ => defined_ok _ _

theorem defined_parseTerm (hps : ps.Delimited) (L : Lexer D) : Defined (parseTerm ps L) :=
  (parse_total hps _).1 L (by have := remaining_lt_parseBound L; omega)

theorem defined_parsePair (hps : ps.Delimited) (L : Lexer D) : Defined (parsePair ps L) := by
  unfold parsePair
  apply (defined_getToken L).bind
  intro t L₁ hget
  split_ifs with ht
  · exact defined_ok _ _
  · obtain rfl : t = .IDENT := not_not.1 ht
    refine Defined.bind (defined_ok _ _) fun lineNo _ hline => ?_
    cases hline
    refine Defined.bind (defined_ok _ _) fun filename _ hfile => ?_
    cases hfile
    rw [Call.bind_ok (stringValue_ident (ident_of_token (getToken_ok hget).2.1))]
    apply (defined_expect .ASSIGN L₁).bind
    intro _ L₂ _
    exact (defined_parseTerm hps L₂).bind fun _ _ _ => defined_ok _ _

theorem parsePair_remaining (hps : ps.Delimited) {b : Pair D} {L L' : Lexer D}
    (h : parsePair ps L = .ok (some b) L') : L'.remaining < L.remaining := by
  cases parsePair_ok h with
  | some hget hassign hparse =>
    have hkey := getToken_remaining_lt hget (by decide)
    have hsign := getToken_remaining_lt hassign (by decide)
    have hval := (parse_remaining hps _).1 _ _ _ hparse
    omega

/-! ### The end of the text -/

def parseList (ps : ParserStyle) (close : Token) : LexM D (List (Value D)) := fun L =>
  parseListLoop ps close (parseBound L) true L

theorem parseTermLoop_END (hps : ps.Delimited) {L L₁ : Lexer D} (hget : getToken L = .ok .END L₁)
    (fuel : ℕ) : parseTermLoop ps (fuel + 1) L =
      throwHere "number, string, identifier or list expected" L₁ := by
  rw [parseTermLoop, Call.bind_ok hget, if_neg (by decide), if_neg (by decide), if_neg (by decide),
    if_neg hps.open_ne_END.1.symm]

theorem parseListLoop_END (hps : ps.Delimited) {close : Token} (hclose : Closes ps close)
    {L L₁ : Lexer D} (hget : getToken L = .ok .END L₁) (fuel : ℕ) (first : Bool) :
    ∃ what, parseListLoop ps close (fuel + 2) first L = .error (.runtimeError what) L₁ := by
  have hcurrent := (getToken_ok hget).2.1
  rw [parseListLoop, Call.bind_ok hget, if_neg (hps.close_ne_END hclose).symm]
  rcases parseSeparator_cases first L₁ with h | h | ⟨hcomma, -⟩
  · have hterm := parseTermLoop_END hps (getToken_putback hget) fuel
    exact ⟨_, by rw [Call.bind_ok h, Call.bind_error hterm]⟩
  · exact ⟨_, by rw [Call.bind_error h]⟩
  · rw [hcurrent] at hcomma
    cases hcomma

theorem defined_parseList (hps : ps.Delimited) {close : Token} (hclose : Closes ps close)
    (L : Lexer D) : Defined (parseList ps close L) :=
  (parse_total hps _).2 close true L hclose (remaining_lt_parseBound L)

/-! ### `read_from` -/

theorem readLoop_total (hps : ps.Delimited) (throwing : Bool) {fuel : ℕ} {L : Lexer D}
    (reg : Registry D) (h : L.remaining < fuel) :
    Defined (readLoop ps throwing fuel (L, reg)) := by
  induction fuel generalizing L reg with
  | zero => omega
  | succ fuel ih =>
    rw [readLoop]
    apply (defined_onLexer reg (defined_parsePair hps L)).bind
    rintro (_ | b) ⟨L₁, reg₁⟩ hpair
    · exact defined_ok _ _
    · have hlt : L₁.remaining < L.remaining := parsePair_remaining hps (onLexer_ok hpair).1
      dsimp only
      rcases addPair_cases throwing b L₁ reg₁ with hadd | ⟨what, hadd⟩
      · rw [Call.bind_ok hadd]
        exact ih _ (by omega)
      · rw [Call.bind_error hadd]
        exact defined_error what _

theorem defined_readFromLexer (hps : ps.Delimited) (ls : LexerStyle) (throwing : Bool)
    (L : Lexer D) (reg : Registry D) : Defined (readFromLexer ls ps throwing (L, reg)) := by
  have hstyle : onLexer (fun L : Lexer D => .ok () (L.setStyle ls)) (L, reg) =
    .ok () (L.setStyle ls, reg) := rfl
  have hbound := remaining_lt_parseBound (L.setStyle ls)
  have hloop := readLoop_total hps throwing reg
    (by omega : (L.setStyle ls).remaining < parseBound (L.setStyle ls))
  unfold readFromLexer
  rw [Call.bind_ok hstyle]
  refine Defined.bind hloop ?_
  rintro _ ⟨L', reg'⟩ -
  exact defined_onLexer reg' (defined_ok () L'.putback)

theorem defined_readFrom (hps : ps.Delimited) (file : Option Text) (filename_ : String)
    (ls : LexerStyle) (throwing : Bool) (reg : Registry D) :
    Defined (readFrom file filename_ ls ps throwing reg) := by
  unfold readFrom
  cases file with
  | none => exact defined_error _ _
  | some text =>
    have hread : Defined ((do readFromLexer ls ps throwing; onLexer (expect .END true) :
        RegM D Unit) (open_ (.ofText text) filename_ {}, reg)) := by
      apply (defined_readFromLexer hps ls throwing _ reg).bind
      rintro _ ⟨L, reg'⟩ -
      exact defined_onLexer reg' (defined_expect .END L)
    rcases hread with ⟨_, s, h⟩ | ⟨what, s, h⟩
    · simp only [h]
      exact defined_ok _ _
    · simp only [h]
      exact defined_error what _

/-! ### Termination -/

/-- The loops of the lexer, with any bound above the number of characters left, end with what
`get_token` makes of them; `scan` bounds the jumps to its `restart`. -/
structure LoopsEnd (D : Type) [NumGet D] : Prop where
  whileGet : ∀ (p : Char → Bool) (is : IStream) (fuel : ℕ), is.rest.length < fuel →
    whileGet p fuel is = some (is.getWhile p)
  comment : ∀ (L : Lexer D) (fuel : ℕ), L.is.rest.length < fuel →
    munchLoop fuel L.is L.lineNo_ =
      some ((munchTillAsterisksSlash L).is, (munchTillAsterisksSlash L).lineNo_)
  string : ∀ (quote : Char) (text : Text) (fuel : ℕ), text.length < fuel →
    stringLoop quote fuel ⟨text, false, false⟩ = some (stringBody quote text)
  restart : ∀ (L : Lexer D) (fuel : ℕ), L.is.rest.length < fuel → scan fuel L = read L

/-- A call of `get_token` ends, and takes a character where it returns another token than a held one
or `END`. -/
structure TokensConsume (D : Type) [NumGet D] : Prop where
  ends : ∀ L : Lexer D, Defined (getToken L)
  consumes : ∀ (L L' : Lexer D) (t : Token), getToken L = .ok t L' → L.hold = false → t ≠ .END →
    L'.is.rest.length < L.is.rest.length

/-- The functions of the parser end, have less to read after a call that returns, and throw at the
end of the text, `parse_list` at every test of its loop. -/
structure ParserEnds (D : Type) [NumGet D] (ps : ParserStyle) : Prop where
  pair : ∀ L : Lexer D, Defined (parsePair ps L) ∧
    ∀ b L', parsePair ps L = .ok (some b) L' → L'.remaining < L.remaining
  term : ∀ L : Lexer D, Defined (parseTerm ps L) ∧
    ∀ v L', parseTerm ps L = .ok v L' → L'.remaining < L.remaining
  list : ∀ (close : Token) (L : Lexer D), Closes ps close → Defined (parseList ps close L) ∧
    ∀ vs L', parseList ps close L = .ok vs L' → L'.remaining < L.remaining
  atEnd : ∀ L L₁ : Lexer D, getToken L = .ok .END L₁ →
    (∃ what, parseTerm ps L = .error (.runtimeError what) L₁) ∧
    ∀ (close : Token) (fuel : ℕ) (first : Bool), Closes ps close →
      ∃ what, parseListLoop ps close (fuel + 2) first L = .error (.runtimeError what) L₁

theorem loopsEnd : LoopsEnd D where
  whileGet _ _ _ h := whileGet_eq h
  comment _ _ h := munchLoop_eq h
  string _ _ _ h := stringLoop_eq h
  restart _ _ h := scan_fuel h (Nat.lt_succ_self _)

theorem tokensConsume : TokensConsume D where
  ends := defined_getToken
  consumes L L' t h hold hne := by
    rw [getToken_of_hold hold] at h
    exact (read_spec L).2 t L' h hne

theorem parserEnds (hps : ps.Delimited) : ParserEnds D ps where
  pair L := ⟨defined_parsePair hps L, fun _ _ => parsePair_remaining hps⟩
  term L := ⟨defined_parseTerm hps L, fun v L' => (parse_remaining hps _).1 v L L'⟩
  list close L hclose := ⟨defined_parseList hps hclose L,
    fun vs L' => (parse_remaining hps _).2 close true vs L L' hclose⟩
  atEnd _ _ hget := ⟨⟨_, parseTermLoop_END hps hget _⟩,
    fun _ fuel first hclose => parseListLoop_END hps hclose hget fuel first⟩

/-- **Reading terminates.** For every text and every style, `read_from` returns or throws. -/
theorem readFrom_terminates (hps : ps.Delimited) (ls : LexerStyle) (throwing : Bool)
    (reg : Registry D) :
    (∀ L : Lexer D, Defined (readFromLexer ls ps throwing (L, reg))) ∧
      (∀ (file : Option Text) (filename_ : String),
        Defined (readFrom file filename_ ls ps throwing reg)) ∧
      LoopsEnd D ∧ TokensConsume D ∧ ParserEnds D ps :=
  ⟨fun L => defined_readFromLexer hps ls throwing L reg,
    fun file filename_ => defined_readFrom hps file filename_ ls throwing reg,
    loopsEnd, tokensConsume, parserEnds hps⟩

/-- A list that is not closed, where lists and expressions have the same delimiter. -/
theorem readFrom_terminates_unclosed :
    Defined (readFrom (D := ℕ) (some ['a', '=', '(', '1']) "f" {} ⟨.commaOptional, .LP, .LP⟩ true
      .empty) := by
  have hps : ParserStyle.Delimited ⟨.commaOptional, .LP, .LP⟩ := ⟨by decide, by decide⟩
  obtain ⟨-, hfile, -⟩ := readFrom_terminates (D := ℕ) hps {} true .empty
  exact hfile (some ['a', '=', '(', '1']) "f"

end Nanonet
