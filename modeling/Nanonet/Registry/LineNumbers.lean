import Nanonet.Registry.Spelling
import Nanonet.Registry.ReadFrom

/-!
# Line numbers

The lexer counts newlines where it skips, and only there: no token has a newline in its text, given
that the conversion to a number takes none. So whatever calls brought a lexer to a token, its line
number is one more than the newlines before the token (`TokenCalls.tracked`). The parser makes no other
calls (`made_parseTerm`), so the pairs that `read_from` stores have the lines of their keys.
-/

namespace Nanonet

open Lexer

variable {D : Type} [NumGet D] {style : LexerStyle}

/-- `operator>>( double& )` takes no newline. -/
def ReadsOneLine (D : Type) [NumGet D] : Prop :=
  ∀ (text rest : Text) (d : D), NumGet.extract text = (some d, rest) →
    ∃ w, text = w ++ rest ∧ '\n' ∉ w

/-! ### Where a token stands -/

omit [NumGet D] in
theorem Quoted.newline_notMem {quote : Char} {body value : Text} (hquote : quote ≠ '\n')
    (h : Quoted quote body value) : '\n' ∉ body := by
  induction h with
  | nil => simp
  | plain _ _ hc _ ih => simp [ih, Ne.symm hc]
  | quote _ ih => simp [ih, Ne.symm hquote]
  | newline _ ih => simp [ih]
  | backslash _ ih => simp [ih]

theorem TokenText.oneLine (hnum : ReadsOneLine D) {text rest : Text} {x : Lexeme D}
    (h : TokenText style text x rest) : ∃ w, text = w ++ rest ∧ '\n' ∉ w := by
  rcases h with h | ⟨-, -, rfl, -⟩
  · cases h with
    | @ident c cs rest hc hcs _ =>
      refine ⟨c :: cs, rfl, ?_⟩
      rintro (_ | ⟨_, hmem⟩)
      · simp [isalpha] at hc
      · simpa [isalnum] using hcs _ hmem
    | @string body value rest hbody =>
      have hquote : style.quoteChar ≠ '\n' := by
        rcases quoteChar_cases style with h | h <;> rw [h] <;> decide
      refine ⟨style.quoteChar :: (body ++ [style.quoteChar]), by simp, ?_⟩
      simp [hbody.newline_notMem hquote, Ne.symm hquote]
    | num _ hextract => exact hnum _ _ _ hextract
    | @punct c t rest hmem =>
      refine ⟨[c], rfl, ?_⟩
      rintro (_ | ⟨_, ⟨⟩⟩)
      simp [punctTokens] at hmem
    | @special c t rest hmem =>
      refine ⟨[c], rfl, ?_⟩
      rintro (_ | ⟨_, ⟨⟩⟩)
      simp [specialTokens] at hmem
  · exact ⟨['/'], rfl, by decide⟩

/-- Whole tokens lead from the first text to the second, with what is skipped before each of them. -/
inductive ReadTo (D : Type) [NumGet D] (style : LexerStyle) : Text → Text → Prop where
  | refl (text : Text) : ReadTo D style text text
  | token {text mid rest : Text} {x : Lexeme D} : ReadTo D style text mid →
      TokenText style (style.munched.skip mid) x rest → ReadTo D style text rest

theorem ReadTo.trans {text mid rest : Text} (h : ReadTo D style text mid)
    (h' : ReadTo D style mid rest) : ReadTo D style text rest := by
  induction h' with
  | refl => exact h
  | token _ htoken ih => exact ih.token htoken

/-- In `input`, whose tokens are read up to some place, `before` ends where nothing more can be
skipped there, and the text of the token `x` follows, with `rest` after it. -/
def StandsAt (style : LexerStyle) (input before : Text) (x : Lexeme D) (rest : Text) : Prop :=
  ∃ mid, ReadTo D style input mid ∧ input = before ++ style.munched.skip mid ∧
    TokenText style (style.munched.skip mid) x rest

/-- What calls that started at `L₀` have read. -/
structure Tracked (L₀ L : Lexer D) : Prop where
  /-- Whole tokens have been read and their newlines counted, or `END` was met. -/
  consumed : L.is.rest = [] ∧ L.currentToken_ = .END ∨
    ∃ before, L₀.is.rest = before ++ L.is.rest ∧ ReadTo D L₀.style L₀.is.rest L.is.rest ∧
      L.lineNo_ = L₀.lineNo_ + before.countP isnewline
  /-- The current token is the first one still, or the lexer's line is where its text starts. -/
  current : L.lexeme = L₀.lexeme ∨ L.currentToken_ = .END ∨
    ∃ before, StandsAt L₀.style L₀.is.rest before L.lexeme L.is.rest ∧
      L.lineNo_ = L₀.lineNo_ + before.countP isnewline

theorem TokenCalls.tracked (hnum : ReadsOneLine D) {L₀ L : Lexer D} (h : TokenCalls L₀ L)
    (hL₀ : Standing L₀ L₀.is.rest) : Tracked L₀ L := by
  induction h with
  | refl => exact ⟨.inr ⟨[], rfl, .refl _, rfl⟩, .inl rfl⟩
  | putback _ ih => exact ⟨ih.consumed, ih.current⟩
  | @get L L' t hcalls hget ih =>
    obtain ⟨-, -, rfl⟩ | ⟨-, hread⟩ := getToken_ok_cases hget
    · exact ⟨ih.consumed, ih.current⟩
    · obtain ⟨hstyle, hL⟩ := hcalls.standing hL₀
      have hcurrent := (read_frame hread).2.2
      cases read_ok hL hread with
      | finished _ hrest => exact ⟨.inl ⟨hrest, hcurrent⟩, .inr (.inl hcurrent)⟩
      | unclosed _ _ _ hrest => exact ⟨.inl ⟨hrest, hcurrent⟩, .inr (.inl hcurrent)⟩
      | @token _ _ gap cs c hskip hgap _ _ htoken =>
        obtain ⟨hnil, -⟩ | ⟨before, hbefore, hreadTo, hcount⟩ := ih.consumed
        · simp [hnil] at hgap
        have hline : L'.lineNo_ = L₀.lineNo_ + (before ++ gap).countP isnewline := by
          have hL' := htoken.line
          simp only at hL'
          rw [hL', hcount, List.countP_append, Nat.add_assoc]
        have hspells : TokenText L₀.style (c :: cs) L'.lexeme L'.is.rest := hstyle ▸ htoken.spells
        rw [hstyle] at hskip
        obtain ⟨w, hw, hnewline⟩ := hspells.oneLine hnum
        refine ⟨.inr ⟨before ++ gap ++ w, ?_, hreadTo.token (hskip ▸ hspells), ?_⟩,
          .inr (.inr ⟨before ++ gap, ⟨L.is.rest, hreadTo, ?_, hskip ▸ hspells⟩, hline⟩)⟩
        · rw [hbefore, hgap, hw]
          simp only [List.append_assoc]
        · rw [hline, ← countP_isnewline_append hnewline]
        · rw [hskip, List.append_assoc, ← hgap, hbefore]

/-! ### The calls of the parser -/

/-- A call that returns has done nothing to the lexer but `get_token()` and `putback()`. -/
def Made {α : Type} (x : LexM D α) : Prop := ∀ L a L', x L = .ok a L' → TokenCalls L L'

theorem Made.bind {α β : Type} {x : LexM D α} {f : α → LexM D β} (hx : Made x)
    (hf : ∀ a, Made (f a)) : Made (x >>= f) := by
  intro L b L'' h
  obtain ⟨a, L', hxa, hfb⟩ := Call.of_bind_ok h
  exact (hx L a L' hxa).trans (hf a L' b L'' hfb)

theorem made_of_same {α : Type} {x : LexM D α} (h : ∀ L a L', x L = .ok a L' → L' = L) :
    Made x := by
  intro L a L' hx
  rw [h L a L' hx]
  exact .refl

theorem made_pure {α : Type} (a : α) : Made (pure a : LexM D α) :=
  made_of_same fun _ _ _ h => (EStateM.Result.ok.inj h).2.symm

theorem made_throwHere {α : Type} (message : String) : Made (throwHere message : LexM D α) :=
  made_of_same fun _ _ _ h => by cases h

theorem made_currentToken : Made (currentToken : LexM D Token) :=
  made_of_same fun _ _ _ h => (EStateM.Result.ok.inj h).2.symm

theorem made_stringValue : Made (stringValue : LexM D Text) := by
  refine made_of_same fun L a L' h => ?_
  unfold stringValue at h
  split_ifs at h
  exact (EStateM.Result.ok.inj h).2.symm

theorem made_numValue : Made (numValue : LexM D D) := by
  refine made_of_same fun L a L' h => ?_
  unfold numValue at h
  split_ifs at h
  exact (EStateM.Result.ok.inj h).2.symm

theorem made_getToken : Made (getToken : LexM D Token) := fun _ _ _ h => TokenCalls.refl.get h

theorem made_unget : Made (unget : LexM D Unit) := by
  intro L a L' h
  rw [← (EStateM.Result.ok.inj h).2]
  exact TokenCalls.refl.putback

theorem Made.ite {α : Type} {c : Prop} [Decidable c] {x y : LexM D α} (hx : Made x)
    (hy : Made y) : Made (if c then x else y) := by
  split_ifs
  · exact hx
  · exact hy

theorem made_expect (t : Token) (read : Bool) : Made (expect t read : LexM D Unit) := by
  have hrest : ∀ tt : Token, Made (if tt ≠ t then throwHere (tokenName t ++ " expected")
      else pure () : LexM D Unit) := fun _ => (made_throwHere _).ite (made_pure ())
  exact (made_getToken.bind hrest).ite (made_currentToken.bind hrest)

variable {ps : ParserStyle}

theorem made_parseSeparator (first : Bool) : Made (parseSeparator ps first : LexM D Unit) := by
  unfold parseSeparator
  refine made_unget.ite ?_
  split
  · exact made_expect _ _
  · exact made_currentToken.bind fun _ => made_unget.ite (made_pure ())

theorem made_parse (fuel : Nat) :
    (∀ close first, Made (parseListLoop ps close fuel first : LexM D (List (Value D)))) ∧
      Made (parseTermLoop ps fuel : LexM D (Value D)) := by
  induction fuel with
  | zero =>
    refine ⟨fun _ _ L a L' h => ?_, fun L a L' h => ?_⟩
    · rw [parseListLoop] at h
      cases h
    · rw [parseTermLoop] at h
      cases h
  | succ fuel ih =>
    refine ⟨fun close first => ?_, ?_⟩
    · rw [parseListLoop]
      refine made_getToken.bind fun t => (made_pure _).ite ?_
      refine (made_parseSeparator first).bind fun _ => ih.2.bind fun v => ?_
      exact (ih.1 close false).bind fun _ => made_pure _
    · rw [parseTermLoop]
      refine made_getToken.bind fun t => Made.ite ?_ (Made.ite ?_ (Made.ite ?_ (Made.ite ?_ ?_)))
      · exact made_numValue.bind fun _ => made_pure _
      · exact made_stringValue.bind fun _ => made_pure _
      · refine made_stringValue.bind fun ident => made_getToken.bind fun t => Made.ite ?_ ?_
        · exact (ih.1 _ true).bind fun _ => made_pure _
        · exact made_unget.bind fun _ => made_pure _
      · exact (ih.1 _ true).bind fun _ => made_pure _
      · exact made_throwHere _

theorem made_parseTerm : Made (parseTerm ps : LexM D (Value D)) := fun L v L' h =>
  (made_parse (parseBound L)).2 L v L' h

/-! ### The keys of a file -/

/-- The keys of the pairs stand in the text one after another, each with `=` after it, the first text
already read; each pair has the line of its key. -/
inductive KeysAt (style : LexerStyle) : Text → Text → List (Pair D) → Prop where
  | nil (before text : Text) : KeysAt style before text []
  | cons {before gap w text cs : Text} {b : Pair D} {bs : List (Pair D)} :
      StandsAt (D := D) style (gap ++ (w ++ text)) gap (.ident b.key) text →
      style.munched.skip text = '=' :: cs → b.lineNo = 1 + (before ++ gap).countP isnewline →
      KeysAt style (before ++ gap ++ w) text bs →
      KeysAt style before (gap ++ (w ++ text)) (b :: bs)

theorem KeysAt.mono {before gap text : Text} {bs : List (Pair D)}
    (hreadTo : ReadTo D style (gap ++ text) text) (h : KeysAt style (before ++ gap) text bs) :
    KeysAt style before (gap ++ text) bs := by
  cases h with
  | nil => exact .nil _ _
  | @cons _ gap' w text cs b bs hkey hassign hline hkeys =>
    obtain ⟨mid, hmid, htext, hspells⟩ := hkey
    rw [← List.append_assoc] at hreadTo ⊢
    refine .cons ⟨mid, ?_, ?_, hspells⟩ hassign ?_ ?_
    · rw [List.append_assoc] at hreadTo ⊢
      exact hreadTo.trans hmid
    · rw [List.append_assoc, htext, List.append_assoc]
    · rw [hline, List.append_assoc]
    · simpa using hkeys

/-- A lexer that has read the first text, and whose next key is still to be read. -/
structure Base (style : LexerStyle) (before : Text) (L : Lexer D) : Prop where
  style : L.style = style
  standing : Standing L L.is.rest
  line : L.lineNo_ = 1 + before.countP isnewline
  notIdent : L.currentToken_ ≠ .IDENT

theorem TokenCalls.filename {L₀ L : Lexer D} (h : TokenCalls L₀ L) : L.filename_ = L₀.filename_ := by
  induction h with
  | refl => rfl
  | putback _ ih => exact ih
  | get _ hget ih => exact (getToken_ok hget).1.trans ih

theorem parsePair_some {L L' : Lexer D} {b : Pair D} (h : parsePair ps L = .ok (some b) L') :
    ∃ L₁ L₂, getToken L = .ok .IDENT L₁ ∧ L₁.lexeme = .ident b.key ∧ b.lineNo = L₁.lineNo_ ∧
      b.filename = L₁.filename_ ∧ getToken L₁ = .ok .ASSIGN L₂ ∧ TokenCalls L₂ L' := by
  cases parsePair_ok h with
  | some hget hassign hparse =>
    exact ⟨_, _, hget, ident_of_token (getToken_ok hget).2.1, rfl, rfl, hassign,
      made_parseTerm _ _ _ hparse⟩

theorem TokenText.assign {c : Char} {cs rest : Text}
    (h : TokenText (D := D) style (c :: cs) (.punct .ASSIGN) rest) : c = '=' := by
  rcases h with h | hstar
  · cases h with
    | punct hmem => simpa [punctTokens] using hmem
    | special hmem => simp [specialTokens] at hmem
  · cases hstar.2.1

theorem skip_of_assign {L L' : Lexer D} (hL : Standing L L.is.rest)
    (h : read L = .ok .ASSIGN L') : ∃ cs, L.style.munched.skip L.is.rest = '=' :: cs := by
  have hlexeme : L'.lexeme = .punct .ASSIGN := by simp [lexeme, (read_frame h).2.2]
  cases read_ok hL h with
  | token hskip _ _ _ htoken =>
    have hspells := htoken.spells
    rw [hlexeme] at hspells
    exact ⟨_, hspells.assign ▸ hskip⟩

/-- A pair is read: its key stands after what was read before, and the next one after it. -/
theorem Base.parsePair (hnum : ReadsOneLine D) {before : Text} {L₀ L L' : Lexer D} {b : Pair D}
    (hbase : Base style before L₀) (hcalls : TokenCalls L₀ L) (h : parsePair ps L = .ok (some b) L') :
    b.filename = L₀.filename_ ∧ ∃ (L₁ L₂ : Lexer D) (gap w text cs : Text),
      L₂.filename_ = L₀.filename_ ∧ L₀.is.rest = gap ++ (w ++ L₁.is.rest) ∧
      StandsAt (D := D) style L₀.is.rest gap (.ident b.key) L₁.is.rest ∧
      style.munched.skip L₁.is.rest = '=' :: cs ∧
      b.lineNo = 1 + (before ++ gap).countP isnewline ∧
      L₁.is.rest = text ++ L₂.is.rest ∧ ReadTo D style L₁.is.rest L₂.is.rest ∧
      Base style (before ++ gap ++ w ++ text) L₂ ∧ TokenCalls L₂ L' := by
  obtain ⟨L₁, L₂, hget, hlexeme, hline, hfile, hassign, hcalls'⟩ := parsePair_some h
  refine ⟨hfile.trans (hcalls.get hget).filename, L₁, L₂, ?_⟩
  have hcalls₁ := hcalls.get hget
  have hcalls₂ : TokenCalls L₁ L₂ := TokenCalls.refl.get hassign
  have hcurrent₁ := (getToken_ok hget).2.1
  have hcurrent₂ := (getToken_ok hassign).2.1
  obtain ⟨hstyle₁, hstanding₁⟩ := hcalls₁.standing hbase.standing
  obtain ⟨hstyle₂, hstanding₂⟩ := hcalls₂.standing hstanding₁
  have hread : read L₁ = .ok .ASSIGN L₂ := by
    obtain ⟨-, hsame, -⟩ | ⟨-, hread⟩ := getToken_ok_cases hassign
    · cases hsame.trans hcurrent₁
    · exact hread
  obtain ⟨cs, hskip⟩ := skip_of_assign hstanding₁ hread
  rw [hstyle₁, hbase.style] at hskip
  obtain hsame | hEND | ⟨gap, hkey, hline₁⟩ := (hcalls₁.tracked hnum hbase.standing).current
  · have htoken := congrArg Lexeme.token hsame
    rw [token_lexeme, token_lexeme, hcurrent₁] at htoken
    exact absurd htoken.symm hbase.notIdent
  · cases hcurrent₁.symm.trans hEND
  · rw [hbase.style, hlexeme] at hkey
    obtain ⟨w, hw, hnewline⟩ := hkey.choose_spec.2.2.oneLine hnum
    have hrest : L₀.is.rest = gap ++ (w ++ L₁.is.rest) := hw ▸ hkey.choose_spec.2.1
    obtain ⟨-, hEND⟩ | ⟨text, htext, hreadTo, hline₂⟩ := (hcalls₂.tracked hnum hstanding₁).consumed
    · cases hcurrent₂.symm.trans hEND
    rw [hstyle₁, hbase.style] at hreadTo
    have hlineNo : b.lineNo = 1 + (before ++ gap).countP isnewline := by
      rw [hline, hline₁, hbase.line, List.countP_append, Nat.add_assoc]
    refine ⟨gap, w, text, cs, hcalls₂.filename.trans hcalls₁.filename, hrest, hkey, hskip, hlineNo,
      htext, hreadTo, ⟨?_, hstanding₂, ?_, ?_⟩, hcalls'⟩
    · exact hstyle₂.trans (hstyle₁.trans hbase.style)
    · rw [hline₂, ← hline, hlineNo, ← countP_isnewline_append hnewline, Nat.add_assoc,
        ← List.countP_append]
    · rw [hcurrent₂]
      decide

theorem readLoop_keys (hnum : ReadsOneLine D) (ps : ParserStyle) (throwing : Bool) (fuel : Nat)
    {before : Text} {L₀ L : Lexer D} (reg : Registry D) (hbase : Base style before L₀)
    (hcalls : TokenCalls L₀ L) :
    ∃ bs, KeysAt style before L₀.is.rest bs ∧ (∀ b ∈ bs, b.filename = L₀.filename_) ∧
      (stateAfter (readLoop ps throwing fuel (L, reg))).2 = reg.defineAll bs := by
  have hnone : ∃ bs, KeysAt style before L₀.is.rest bs ∧ (∀ b ∈ bs, b.filename = L₀.filename_) ∧
      reg = reg.defineAll bs := ⟨[], .nil _ _, by simp, rfl⟩
  induction fuel generalizing before L₀ L reg with
  | zero => exact hnone
  | succ fuel ih =>
    rw [readLoop]
    cases hparse : parsePair ps L with
    | error e L' =>
      have honLexer : onLexer (parsePair ps) (L, reg) = .error e (L', reg) := by
        simp only [onLexer, hparse]
      rw [Call.bind_error honLexer]
      exact hnone
    | ok b L' =>
      have honLexer : onLexer (parsePair ps) (L, reg) = .ok b (L', reg) := by
        simp only [onLexer, hparse]
      rw [Call.bind_ok honLexer]
      cases b with
      | none => exact hnone
      | some b =>
        rcases addPair_cases throwing b L' reg with hadd | ⟨what, hadd⟩
        · obtain ⟨hfile, L₁, L₂, gap, w, text, cs, hfile₂, hrest, hkey, hskip, hline, htext, hreadTo,
            hbase₂, hcalls₂⟩ := hbase.parsePair hnum hcalls hparse
          obtain ⟨bs, hkeys, hfiles, hreg⟩ := ih (reg.define b.key b.mapped) hbase₂ hcalls₂
            ⟨[], .nil _ _, by simp, rfl⟩
          refine ⟨b :: bs, ?_, ?_, ?_⟩
          · rw [hrest] at hkey ⊢
            refine .cons hkey hskip hline ?_
            rw [htext] at hreadTo ⊢
            exact hkeys.mono hreadTo
          · rw [hfile₂] at hfiles
            simpa [hfile] using hfiles
          · dsimp only
            rw [Call.bind_ok hadd]
            exact hreg
        · dsimp only
          rw [Call.bind_error hadd]
          exact hnone

theorem readFrom_keys (hnum : ReadsOneLine D) (text : Text) (filename_ : String) (ls : LexerStyle)
    (ps : ParserStyle) (throwing : Bool) (reg : Registry D) :
    ∃ bs, KeysAt ls [] text bs ∧ (∀ b ∈ bs, b.filename = filename_) ∧
      (stateAfter (readFrom (some text) filename_ ls ps throwing reg)).kvMap =
        (reg.defineAll bs).kvMap := by
  set L : Lexer D := (open_ (.ofText text) filename_ {}).setStyle ls with hL
  have hbase : Base ls [] L := ⟨rfl, .inl rfl, rfl, by simp [hL, setStyle, open_]⟩
  obtain ⟨bs, hkeys, hfiles, hreg⟩ := readLoop_keys hnum ps throwing (parseBound L) reg hbase .refl
  refine ⟨bs, hkeys, hfiles, ?_⟩
  rw [← hreg]
  simp only [readFrom, readFromLexer, bind, EStateM.bind, onLexer, ← hL]
  cases hloop : readLoop ps throwing (parseBound L) (L, reg) with
  | error e s => rfl
  | ok u s =>
    simp only [unget]
    cases expect .END true s.1.putback <;> rfl

omit [NumGet D] in
theorem definedAt_of_pairs {reg reg' : Registry D} {bs : List (Pair D)} {f : String}
    (h : reg'.kvMap = (reg.defineAll bs).kvMap) (hfiles : ∀ b ∈ bs, b.filename = f) (key : Text) :
    reg'.definedAt key = match bs.reverse.find? fun b => key = b.key with
      | some b => .ok (definedAtMsg b.lineNo f)
      | none => reg.definedAt key := by
  unfold Registry.definedAt
  rw [h, Registry.defineAll_kvMap]
  cases hfind : bs.reverse.find? fun b => key = b.key with
  | none => rfl
  | some b =>
    have hmem := List.mem_reverse.1 (List.mem_of_find?_eq_some hfind)
    simp [Pair.mapped, hfiles b hmem]

theorem readsOneLine_digits : ReadsOneLine ℕ := by
  intro text rest d h
  change readDigits text = _ at h
  unfold readDigits at h
  split_ifs at h
  · cases h
  · obtain ⟨-, rfl⟩ : _ = d ∧ text.dropWhile isdigit = rest := by simpa using h
    refine ⟨text.takeWhile isdigit, List.takeWhile_append_dropWhile.symm, fun hmem => ?_⟩
    have hdigit : isdigit '\n' = true := List.mem_takeWhile_imp hmem
    cases hdigit

end Nanonet
