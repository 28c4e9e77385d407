import Nanonet.Lib.Pushback
import Nanonet.Registry.ReadFrom

/-!
# One token of lookahead

A lexer is a reader that takes a token back (`Lexer.reader`): its hold flag and its one value are enough
to give the tokens of the text in order, whatever is peeked at or put back in between. `parse_term`
and `parse_list` take the tokens of the term off the stream, in every parser style, and `read_from`
those of the pairs before the first key that is no identifier (`readFromLexer_reads`).
-/

namespace Nanonet

open Lexer

variable {D : Type}

/-! ### What a throwing call leaves alone -/

namespace Lexer

theorem frame_returnChar (c : Char) (L : Lexer D) : Frame L (stateAfter (returnChar c L)) := by
  unfold returnChar
  cases charToken c with
  | some t => exact ⟨rfl, rfl, rfl⟩
  | none => exact ⟨rfl, rfl, rfl⟩

theorem frame_lexString (L : Lexer D) : Frame L (stateAfter (lexString L)) := by
  unfold lexString
  rcases stringBody L.style.quoteChar L.is.rest with ⟨value, _ | message, is⟩
  · exact ⟨rfl, rfl, rfl⟩
  · exact ⟨rfl, rfl, rfl⟩

theorem frame_lexNumber [NumGet D] (c : Char) (L : Lexer D) :
    Frame L (stateAfter (lexNumber c L)) := by
  unfold lexNumber
  rcases (L.is.putback c).readDouble with ⟨_ | d, is⟩
  · exact ⟨rfl, rfl, rfl⟩
  · exact ⟨rfl, rfl, rfl⟩

section restart

variable {restart : LexM D Token} (hrestart : ∀ L, Frame L (stateAfter (restart L)))

include hrestart

theorem frame_munchLine (L : Lexer D) : Frame L (stateAfter (munchLine restart L)) := by
  unfold munchLine
  dsimp only
  split_ifs
  · exact ⟨rfl, rfl, rfl⟩
  · exact ⟨(hrestart _).style, (hrestart _).filename, (hrestart _).hold⟩

theorem frame_lexSlash (L : Lexer D) : Frame L (stateAfter (lexSlash restart L)) := by
  unfold lexSlash
  rcases L.is.peek with ⟨_ | c, is⟩
  · exact ⟨rfl, rfl, rfl⟩
  · dsimp only
    split_ifs
    · exact ⟨rfl, rfl, rfl⟩
    · obtain ⟨hstyle, hfilename, hhold⟩ := frame_munchLine hrestart { L with is := is }
      exact ⟨hstyle, hfilename, hhold⟩
    · exact ⟨rfl, rfl, rfl⟩
    · have hmunch := frame_munchTillAsterisksSlash { L with is := is.ignore }
      exact Frame.trans ⟨hmunch.style, hmunch.filename, hmunch.hold⟩ (hrestart _)
    · exact ⟨rfl, rfl, rfl⟩

theorem frame_scanWith [NumGet D] (L : Lexer D) : Frame L (stateAfter (scanWith restart L)) := by
  unfold scanWith
  rcases L.is.getWhile isspace with ⟨spaces, stop, is⟩
  dsimp only
  split_ifs
  · exact ⟨rfl, rfl, rfl⟩
  · cases stop with
    | none => exact ⟨rfl, rfl, rfl⟩
    | some c =>
      refine Frame.trans
        (⟨rfl, rfl, rfl⟩ : Frame L { L with is := is, lineNo_ := L.lineNo_ + spaces.countP isnewline })
        ?_
      dsimp only [switch]
      split_ifs
      · exact frame_returnChar c _
      · exact frame_munchLine hrestart _
      · exact frame_lexSlash hrestart _
      · exact frame_returnChar c _
      · exact frame_returnChar c _
      · exact frame_lexString _
      · exact frame_lexNumber c _
      · exact ⟨rfl, rfl, rfl⟩
      · exact ⟨rfl, rfl, rfl⟩

end restart

variable [NumGet D]

theorem frame_read (L : Lexer D) : Frame L (stateAfter (read L)) := by
  have hscan : ∀ (n : ℕ) (L : Lexer D), Frame L (stateAfter (scan n L)) := by
    intro n
    induction n with
    | zero => exact fun L => ⟨rfl, rfl, rfl⟩
    | succ n ih => exact frame_scanWith ih
  exact hscan _ L

theorem after_getToken (L : Lexer D) :
    (stateAfter (getToken L)).style = L.style ∧ (stateAfter (getToken L)).filename_ = L.filename_ ∧
      (stateAfter (getToken L)).hold = false := by
  unfold getToken
  split_ifs with hold
  · exact ⟨rfl, rfl, rfl⟩
  · obtain ⟨hstyle, hfilename, hhold⟩ := frame_read L
    exact ⟨hstyle, hfilename, hhold.trans (Bool.not_eq_true _ ▸ hold)⟩

/-! ### The lexer as a reader -/

/-- What a call of `get_token` reports: the token with its value and its line number. -/
def reported : EStateM.Result Exn (Lexer D) Token → Except Exn (Lexeme D × ℕ) × Lexer D
  | .ok _ L => (.ok (L.lexeme, L.lineNo_), L)
  | .error e L => (.error e, L)

omit [NumGet D] in
theorem reported_snd (r : EStateM.Result Exn (Lexer D) Token) : (reported r).2 = stateAfter r := by
  cases r <;> rfl

/-- A lexer gives its tokens one after the other. -/
def reader (D : Type) [NumGet D] : Pushback (Lexer D) Exn (Lexeme D × ℕ) where
  next L := reported (getToken L)
  putback := putback
  next_putback := by
    intro L L' x h
    cases hget : getToken L with
    | ok t L₁ =>
      rw [hget] at h
      cases h
      rw [getToken_putback hget]
      rfl
    | error e L₁ =>
      rw [hget] at h
      cases h

/-- The tokens and exceptions to come. -/
def upcoming (L : Lexer D) : Stream' (Except Exn (Lexeme D × ℕ)) := (reader D).upcoming L

/-- The token sequence of the text that is left: each token is scanned once, nothing is held. -/
def scanned : Lexer D → Stream' (Except Exn (Lexeme D × ℕ)) :=
  Stream'.corec' fun L => reported (read L)

theorem upcoming_of_not_hold {L : Lexer D} (hold : L.hold = false) : L.upcoming = scanned L := by
  refine Pushback.upcoming_congr (fun L => L.hold = false) (fun L hold => ?_) (fun L _ => ?_) hold
  · change reported (getToken L) = _
    rw [getToken_of_hold hold]
  · change (reported (getToken L)).2.hold = false
    rw [reported_snd]
    exact (after_getToken L).2.2

end Lexer

section consumes

variable [NumGet D]

/-- The tokens `p` are read, and nothing else of the lexer is changed for what is read later. -/
structure Consumes (L : Lexer D) (p : Located D) (L' : Lexer D) : Prop where
  reads : (reader D).Reads L (p.map .ok) L'
  style : L'.style = L.style
  filename : L'.filename_ = L.filename_

variable {L L' L'' : Lexer D} {p q : Located D} {t : Token}

theorem Consumes.trans (h : Consumes L p L') (h' : Consumes L' q L'') :
    Consumes L (p ++ q) L'' := by
  refine ⟨?_, h'.style.trans h.style, h'.filename.trans h.filename⟩
  rw [List.map_append]
  exact h.reads.trans h'.reads

theorem next_of_getToken (h : getToken L = .ok t L') :
    (reader D).next L = (.ok (L'.lexeme, L'.lineNo_), L') := by
  change reported (getToken L) = _
  rw [h]
  rfl

theorem consumes_getToken (h : getToken L = .ok t L') :
    Consumes L [(L'.lexeme, L'.lineNo_)] L' := by
  have hafter := after_getToken L
  rw [h] at hafter
  exact ⟨.of_next (next_of_getToken h), hafter.1, hafter.2.1⟩

theorem consumes_putback (h : getToken L = .ok t L') : Consumes L [] L'.putback := by
  have hafter := after_getToken L
  rw [h] at hafter
  exact ⟨.of_putback (next_of_getToken h), hafter.1, hafter.2.1⟩

theorem Consumes.cons (hget : getToken L = .ok t L') (h : Consumes L' p L'') :
    Consumes L ((L'.lexeme, L'.lineNo_) :: p) L'' :=
  (consumes_getToken hget).trans h

theorem Consumes.head_eq {x : Lexeme D × ℕ} (h : Consumes L (x :: p) L')
    (hget : getToken L = .ok t L'') : x.1.token = t := by
  have hx := h.reads.head_eq (next_of_getToken hget)
  cases hx
  exact (token_lexeme L'').trans (getToken_ok hget).2.1

end consumes

/-! ### The grammar in every style -/

/-- Tokens and exceptions, as they come. -/
abbrev Coming (D : Type) := Stream' (Except Exn (Lexeme D × ℕ))

def NextIsNot (t : Token) (s : Coming D) : Prop := ∃ x, s.head = .ok x ∧ x.1.token ≠ t

mutual

/-- The tokens `p` are a term, where `s` comes after them. -/
inductive TermAt (ps : ParserStyle) : Located D → Value D → Coming D → Prop where
  | num (d : D) (line : ℕ) (s : Coming D) : TermAt ps [(.num d, line)] (.num d) s
  | string (v : Text) (line : ℕ) (s : Coming D) : TermAt ps [(.string v, line)] (.string v) s
  | ident (v : Text) (line : ℕ) {s : Coming D} : NextIsNot ps.expressionOpenToken s →
      TermAt ps [(.ident v, line)] (.string v) s
  | expression (head : Text) (line : ℕ) {x : Lexeme D × ℕ} {p : Located D} {vs : List (Value D)}
      {s : Coming D} : x.1.token = ps.expressionOpenToken →
      ListAt ps ps.expressionCloseToken true p vs s →
      TermAt ps ((.ident head, line) :: x :: p) (.expression head vs) s
  | list {x : Lexeme D × ℕ} {p : Located D} {vs : List (Value D)} {s : Coming D} :
      x.1.token = ps.listOpenToken → x.1.token ∉ [Token.NUM, .STRING, .IDENT] →
      ListAt ps ps.listCloseToken true p vs s → TermAt ps (x :: p) (.list vs) s

/-- The tokens `p` are what is left of a list, its closing token included. -/
inductive ListAt (ps : ParserStyle) :
    Token → Bool → Located D → List (Value D) → Coming D → Prop where
  | closed {close : Token} {first : Bool} {x : Lexeme D × ℕ} (s : Coming D) : x.1.token = close →
      ListAt ps close first [x] [] s
  | element {close : Token} {first : Bool} {sep p q : Located D} {v : Value D}
      {vs : List (Value D)} {s : Coming D} : Gap ps first sep →
      (∀ x ∈ (sep ++ p).head?, x.1.token ≠ close) → TermAt ps p v (q.map .ok ++ₛ s) →
      ListAt ps close false q vs s → ListAt ps close first (sep ++ (p ++ q)) (v :: vs) s

end

/-- The tokens `p` are the pairs `bs` of file `f`, where `s` comes after them: the first token of it
that stands where a key would is no identifier. -/
inductive PairsAt (ps : ParserStyle) (f : String) :
    Located D → List (Pair D) → Coming D → Prop where
  | nil {s : Coming D} : NextIsNot .IDENT s → PairsAt ps f [] [] s
  | cons {p q : Located D} {bs : List (Pair D)} {s : Coming D} (b : Pair D) (la : ℕ) :
      b.filename = f → TermAt ps p b.val (q.map .ok ++ₛ s) → PairsAt ps f q bs s →
      PairsAt ps f ((.ident b.key, b.lineNo) :: (.punct .ASSIGN, la) :: (p ++ q)) (b :: bs) s

/-! ### What the parser takes -/

section parser

variable [NumGet D] {ps : ParserStyle} {L L₁ L₂ L' : Lexer D} {t : Token}

theorem Consumes.upcoming {p : Located D} (h : Consumes L p L') :
    L.upcoming = p.map .ok ++ₛ L'.upcoming := h.reads

theorem nextIsNot_of_getToken {u : Token} (h : getToken L = .ok t L') (hne : t ≠ u) :
    NextIsNot u L.upcoming := by
  refine ⟨(L'.lexeme, L'.lineNo_), ?_, ?_⟩
  · rw [(consumes_getToken h).upcoming]
    rfl
  · rwa [token_lexeme, (getToken_ok h).2.1]

theorem separator_consumes {first : Bool} (hget : getToken L = .ok t L₁)
    (hsep : parseSeparator ps first L₁ = .ok () L₂) : ∃ sep, Gap ps first sep ∧ Consumes L sep L₂ := by
  rw [parseSeparator_eq] at hsep
  split_ifs at hsep with hfirst hcomma
  · cases hsep
    exact ⟨[], by rw [hfirst]; rfl, consumes_putback hget⟩
  · cases hsep
    rw [Bool.not_eq_true] at hfirst
    have hlexeme : L₁.lexeme = .punct .COMMA :=
      punct_of_token ((token_lexeme L₁).trans hcomma) (by decide) (by decide) (by decide)
    refine ⟨_, ?_, consumes_getToken hget⟩
    rw [hfirst, hlexeme]
    exact Separator.comma _
  · rw [Bool.not_eq_true] at hfirst
    split at hsep
    · cases hsep
    · next hstyle =>
      cases hsep
      exact ⟨[], by rw [hfirst]; exact Separator.none hstyle, consumes_putback hget⟩

theorem parse_consumes (ps : ParserStyle) (fuel : ℕ) :
    (∀ (v : Value D) (L L' : Lexer D), parseTermLoop ps fuel L = .ok v L' →
      ∃ p, Consumes L p L' ∧ TermAt ps p v L'.upcoming) ∧
    (∀ (close : Token) (first : Bool) (vs : List (Value D)) (L L' : Lexer D),
      parseListLoop ps close fuel first L = .ok vs L' →
      ∃ p, Consumes L p L' ∧ ListAt ps close first p vs L'.upcoming) := by
  induction fuel with
  | zero => exact ⟨fun v L L' h => (by cases h), fun close first vs L L' h => (by cases h)⟩
  | succ fuel ih =>
    refine ⟨fun v L L' h => ?_, fun close first vs L L' h => ?_⟩
    · cases parseTermLoop_ok h with
      | num hget =>
        have hconsumes := consumes_getToken hget
        rw [num_of_token (getToken_ok hget).2.1] at hconsumes
        exact ⟨_, hconsumes, .num _ _ _⟩
      | string hget =>
        have hconsumes := consumes_getToken hget
        rw [string_of_token (getToken_ok hget).2.1] at hconsumes
        exact ⟨_, hconsumes, .string _ _ _⟩
      | expression hget hget' hlist =>
        obtain ⟨p, hp, htail⟩ := ih.2 _ _ _ _ _ hlist
        have hconsumes := hp.cons hget' |>.cons hget
        rw [ident_of_token (getToken_ok hget).2.1] at hconsumes
        refine ⟨_, hconsumes, .expression _ _ ?_ htail⟩
        exact (token_lexeme _).trans (getToken_ok hget').2.1
      | ident hget hget' hopen =>
        have hconsumes := (consumes_getToken hget).trans (consumes_putback hget')
        rw [ident_of_token (getToken_ok hget).2.1] at hconsumes
        refine ⟨_, hconsumes, .ident _ _ ?_⟩
        have hnext := nextIsNot_of_getToken hget' hopen
        rwa [(consumes_putback hget').upcoming] at hnext
      | list hget hvalue hlist =>
        obtain ⟨p, hp, htail⟩ := ih.2 _ _ _ _ _ hlist
        have htoken := (token_lexeme _).trans (getToken_ok hget).2.1
        exact ⟨_, hp.cons hget, .list htoken (htoken ▸ hvalue) htail⟩
    · cases parseListLoop_ok h with
      | closed hget =>
        exact ⟨_, consumes_getToken hget, .closed _ ((token_lexeme _).trans (getToken_ok hget).2.1)⟩
      | element hget hne hsep hterm hlist =>
        obtain ⟨sep, hgap, hconsumes⟩ := separator_consumes hget hsep
        obtain ⟨p, hp, hterm⟩ := ih.1 _ _ _ hterm
        obtain ⟨q, hq, hlist⟩ := ih.2 _ _ _ _ _ hlist
        rw [hq.upcoming] at hterm
        have hboth := hconsumes.trans hp
        refine ⟨_, hconsumes.trans (hp.trans hq), .element hgap (fun x hx => ?_) hterm hlist⟩
        obtain ⟨xs, hxs⟩ : ∃ xs, sep ++ p = x :: xs := List.head?_eq_some_iff.1 hx
        rw [hxs] at hboth
        rwa [hboth.head_eq hget]

theorem parsePair_none (h : parsePair ps L = .ok none L') :
    Consumes L [] L'.putback ∧ NextIsNot .IDENT L'.putback.upcoming := by
  cases parsePair_ok h with
  | none hget hne =>
    have hnext := nextIsNot_of_getToken hget hne
    rw [(consumes_putback hget).upcoming] at hnext
    exact ⟨consumes_putback hget, hnext⟩

theorem parsePair_consumes {b : Pair D} (h : parsePair ps L = .ok (some b) L') :
    b.filename = L.filename_ ∧ ∃ la p,
      Consumes L ((.ident b.key, b.lineNo) :: (.punct .ASSIGN, la) :: p) L' ∧
        TermAt ps p b.val L'.upcoming := by
  cases parsePair_ok h with
  | @some L₁ L₂ _ v hget hassign hparse =>
    obtain ⟨p, hp, hterm⟩ := (parse_consumes ps _).1 _ _ _ hparse
    have hconsumes := (hp.cons hassign).cons hget
    have hsign : L₂.lexeme = .punct .ASSIGN :=
      punct_of_token ((token_lexeme L₂).trans (getToken_ok hassign).2.1) (by decide) (by decide)
        (by decide)
    rw [ident_of_token (getToken_ok hget).2.1, hsign] at hconsumes
    exact ⟨(getToken_ok hget).1, L₂.lineNo_, p, hconsumes, hterm⟩

theorem readLoop_consumes {throwing : Bool} {fuel : ℕ} {reg reg' : Registry D}
    (h : readLoop ps throwing fuel (L, reg) = .ok () (L', reg')) :
    ∃ p bs, Consumes L p L'.putback ∧ PairsAt ps L.filename_ p bs L'.putback.upcoming ∧
      reg' = reg.defineAll bs := by
  induction fuel generalizing L reg with
  | zero => cases h
  | succ fuel ih =>
    rw [readLoop] at h
    obtain ⟨o, ⟨L₁, reg₁⟩, hpair, h⟩ := Call.of_bind_ok h
    obtain ⟨hparse, rfl⟩ := onLexer_ok hpair
    dsimp only at hparse
    cases o with
    | none =>
      cases h
      obtain ⟨hconsumes, hnext⟩ := parsePair_none hparse
      exact ⟨[], [], hconsumes, .nil hnext, rfl⟩
    | some b =>
      obtain ⟨_, s, hadd, h⟩ := Call.of_bind_ok h
      obtain ⟨hfile, la, p, hconsumes, hterm⟩ := parsePair_consumes hparse
      rcases addPair_cases throwing b L₁ reg₁ with hok | ⟨what, herror⟩
      · cases hok.symm.trans hadd
        obtain ⟨q, bs, hq, hpairs, rfl⟩ := ih h
        rw [hconsumes.filename] at hpairs
        rw [hq.upcoming] at hterm
        exact ⟨_, b :: bs, hconsumes.trans hq, .cons b la hfile hterm hpairs, rfl⟩
      · cases herror.symm.trans hadd

/-- **`read_from` stops at the first token in key position that is no identifier.** -/
theorem readFromLexer_reads {throwing : Bool} {reg reg' : Registry D}
    (h : readFromLexer L.style ps throwing (L, reg) = .ok () (L', reg')) :
    ∃ p bs, Consumes L p L' ∧ PairsAt ps L.filename_ p bs L'.upcoming ∧
      reg' = reg.defineAll bs := by
  unfold readFromLexer at h
  obtain ⟨_, ⟨L₁, reg₁⟩, hstyle, h⟩ := Call.of_bind_ok h
  obtain ⟨_, ⟨L₂, reg₂⟩, hloop, hunget⟩ := Call.of_bind_ok h
  cases hstyle
  cases hunget
  exact readLoop_consumes hloop

omit [NumGet D] in
theorem PairsAt.next {f : String} {p : Located D} {bs : List (Pair D)} {s : Coming D}
    (h : PairsAt ps f p bs s) : NextIsNot .IDENT s := by
  induction h with
  | nil hnext => exact hnext
  | cons _ _ _ _ _ ih => exact ih

end parser

/-! ### Runs -/

/-- A call on the lexer and what it gave. -/
inductive Event (D : Type) where
  | got (x : Lexeme D × ℕ)
  | threw (e : Exn)
  | peeked (x : Lexeme D × ℕ)
  | gotAndPutBack (x : Lexeme D × ℕ)
  | readFrom (ps : ParserStyle) (reg reg' : Registry D)

/-- The calls of `get_token`, `peek_token`, `putback` after a `get_token`, and `read_from` that take
the first lexer to the second one; a `read_from` returns normally. -/
inductive Runs [NumGet D] (style : LexerStyle) : Lexer D → List (Event D) → Lexer D → Prop where
  | done (L : Lexer D) : Runs style L [] L
  | get {L L₁ L' : Lexer D} {t : Token} {evs : List (Event D)} : getToken L = .ok t L₁ →
      Runs style L₁ evs L' → Runs style L (.got (L₁.lexeme, L₁.lineNo_) :: evs) L'
  | getThrows {L L₁ L' : Lexer D} {e : Exn} {evs : List (Event D)} : getToken L = .error e L₁ →
      Runs style L₁ evs L' → Runs style L (.threw e :: evs) L'
  | peek {L L₁ L' : Lexer D} {t : Token} {evs : List (Event D)} : peekToken L = .ok t L₁ →
      Runs style L₁ evs L' → Runs style L (.peeked (L₁.lexeme, L₁.lineNo_) :: evs) L'
  | peekThrows {L L₁ L' : Lexer D} {e : Exn} {evs : List (Event D)} :
      peekToken L = .error e L₁ → Runs style L₁ evs L' → Runs style L (.threw e :: evs) L'
  | putback {L L₁ L' : Lexer D} {t : Token} {evs : List (Event D)} : getToken L = .ok t L₁ →
      Runs style L₁.putback evs L' →
      Runs style L (.gotAndPutBack (L₁.lexeme, L₁.lineNo_) :: evs) L'
  | readFrom {L L₁ L' : Lexer D} {ps : ParserStyle} {throwing : Bool} {reg reg' : Registry D}
      {evs : List (Event D)} : readFromLexer style ps throwing (L, reg) = .ok () (L₁, reg') →
      Runs style L₁ evs L' → Runs style L (.readFrom ps reg reg' :: evs) L'

/-- The calls have consumed `out`, where `s` is left: a token that is got counts, one that is peeked
at or put back comes next, and `read_from` takes those of the pairs that it defines. -/
inductive Consumed (f : String) (s : Coming D) :
    List (Event D) → List (Except Exn (Lexeme D × ℕ)) → Prop where
  | done : Consumed f s [] []
  | got {evs : List (Event D)} {out : List (Except Exn (Lexeme D × ℕ))} (x : Lexeme D × ℕ) :
      Consumed f s evs out → Consumed f s (.got x :: evs) (.ok x :: out)
  | threw {evs : List (Event D)} {out : List (Except Exn (Lexeme D × ℕ))} (e : Exn) :
      Consumed f s evs out → Consumed f s (.threw e :: evs) (.error e :: out)
  | peeked {evs : List (Event D)} {out : List (Except Exn (Lexeme D × ℕ))} {x : Lexeme D × ℕ} :
      (out ++ₛ s).head = .ok x → Consumed f s evs out → Consumed f s (.peeked x :: evs) out
  | gotAndPutBack {evs : List (Event D)} {out : List (Except Exn (Lexeme D × ℕ))}
      {x : Lexeme D × ℕ} : (out ++ₛ s).head = .ok x → Consumed f s evs out →
      Consumed f s (.gotAndPutBack x :: evs) out
  | readFrom {evs : List (Event D)} {out : List (Except Exn (Lexeme D × ℕ))} {ps : ParserStyle}
      {reg : Registry D} {p : Located D} {bs : List (Pair D)} : PairsAt ps f p bs (out ++ₛ s) →
      Consumed f s evs out →
      Consumed f s (.readFrom ps reg (reg.defineAll bs) :: evs) (p.map .ok ++ out)

section runs

variable [NumGet D] {L L₁ L' : Lexer D} {t : Token} {e : Exn}

theorem peekToken_ok_iff :
    peekToken L = .ok t L₁ ↔ ∃ L₂, getToken L = .ok t L₂ ∧ L₁ = L₂.putback := by
  unfold peekToken
  split_ifs with hold
  · have hget : getToken L = .ok L.currentToken_ { L with hold := false } := if_pos hold
    have hback : ({ L with hold := false } : Lexer D).putback = L := by
      cases L
      cases hold
      rfl
    constructor
    · intro h
      cases h
      exact ⟨_, hget, hback.symm⟩
    · rintro ⟨L₂, hget', rfl⟩
      cases hget.symm.trans hget'
      rw [hback]
  · cases hget : getToken L with
    | ok t' L₂ =>
      constructor
      · intro h
        cases h
        exact ⟨L₂, rfl, rfl⟩
      · rintro ⟨L₃, h, rfl⟩
        cases h
        rfl
    | error e L₂ =>
      constructor
      · intro h
        cases h
      · rintro ⟨L₃, h, -⟩
        cases h

theorem peekToken_error (h : peekToken L = .error e L₁) : getToken L = .error e L₁ := by
  unfold peekToken at h
  split_ifs at h
  cases hget : getToken L with
  | ok t L₂ =>
    rw [hget] at h
    cases h
  | error e' L₂ =>
    rw [hget] at h
    cases h
    rfl

theorem upcoming_throws (h : getToken L = .error e L₁) :
    L.upcoming = Stream'.cons (.error e) L₁.upcoming ∧ L₁.style = L.style ∧
      L₁.filename_ = L.filename_ := by
  have hafter := after_getToken L
  rw [h] at hafter
  refine ⟨Pushback.upcoming_of_next ?_, hafter.1, hafter.2.1⟩
  change reported (getToken L) = _
  rw [h]
  rfl

theorem head_putback (h : getToken L = .ok t L₁) :
    L₁.putback.upcoming.head = .ok (L₁.lexeme, L₁.lineNo_) := by
  have hback := (consumes_putback h).upcoming
  rw [(consumes_getToken h).upcoming] at hback
  exact congrArg Stream'.head hback.symm

/-- What the calls between two lexers have consumed stands before what comes then. -/
def Accounted (L : Lexer D) (evs : List (Event D)) (L' : Lexer D) : Prop :=
  L'.style = L.style ∧
    ∃ out, Consumed L.filename_ L'.upcoming evs out ∧ L.upcoming = out ++ₛ L'.upcoming

theorem Accounted.get {evs : List (Event D)} (hget : getToken L = .ok t L₁)
    (h : Accounted L₁ evs L') : Accounted L (.got (L₁.lexeme, L₁.lineNo_) :: evs) L' := by
  have hstep := consumes_getToken hget
  obtain ⟨hstyle, out, hout, hleft⟩ := h
  rw [hstep.filename] at hout
  refine ⟨hstyle.trans hstep.style, _, .got _ hout, ?_⟩
  rw [hstep.upcoming, hleft]
  rfl

theorem Accounted.throws {evs : List (Event D)} (hget : getToken L = .error e L₁)
    (h : Accounted L₁ evs L') : Accounted L (.threw e :: evs) L' := by
  obtain ⟨hstep, hkept, hfile⟩ := upcoming_throws hget
  obtain ⟨hstyle, out, hout, hleft⟩ := h
  rw [hfile] at hout
  refine ⟨hstyle.trans hkept, _, .threw _ hout, ?_⟩
  rw [hstep, hleft]
  rfl

/-- Nothing is consumed where the token is put back, by the user or by `peek_token`. -/
theorem Accounted.putback {evs : List (Event D)} (hget : getToken L = .ok t L₁)
    (h : Accounted L₁.putback evs L') :
    Accounted L (.gotAndPutBack (L₁.lexeme, L₁.lineNo_) :: evs) L' ∧
      Accounted L (.peeked (L₁.lexeme, L₁.lineNo_) :: evs) L' := by
  have hstep := consumes_putback hget
  have hhead := head_putback hget
  obtain ⟨hstyle, out, hout, hleft⟩ := h
  rw [hstep.filename] at hout
  rw [hleft] at hhead
  have hbefore : L.upcoming = out ++ₛ L'.upcoming := hstep.upcoming.trans hleft
  exact ⟨⟨hstyle.trans hstep.style, out, .gotAndPutBack hhead hout, hbefore⟩,
    hstyle.trans hstep.style, out, .peeked hhead hout, hbefore⟩

theorem Accounted.readFrom {evs : List (Event D)} {ps : ParserStyle} {throwing : Bool}
    {reg reg' : Registry D}
    (hread : readFromLexer L.style ps throwing (L, reg) = .ok () (L₁, reg'))
    (h : Accounted L₁ evs L') : Accounted L (.readFrom ps reg reg' :: evs) L' := by
  obtain ⟨p, bs, hstep, hpairs, rfl⟩ := readFromLexer_reads hread
  obtain ⟨hstyle, out, hout, hleft⟩ := h
  rw [hstep.filename] at hout
  rw [hleft] at hpairs
  refine ⟨hstyle.trans hstep.style, _, .readFrom hpairs hout, ?_⟩
  rw [hstep.upcoming, hleft, Stream'.append_append_stream]

theorem Runs.accounted {style : LexerStyle} {evs : List (Event D)} (h : Runs style L evs L')
    (hstyle : L.style = style) : Accounted L evs L' := by
  induction h with
  | done L => exact ⟨rfl, [], .done, rfl⟩
  | get hget _ ih => exact (ih ((consumes_getToken hget).style.trans hstyle)).get hget
  | getThrows hget _ ih => exact (ih ((upcoming_throws hget).2.1.trans hstyle)).throws hget
  | peek hpeek _ ih =>
    obtain ⟨L₂, hget, rfl⟩ := peekToken_ok_iff.1 hpeek
    exact ((ih ((consumes_putback hget).style.trans hstyle)).putback hget).2
  | peekThrows hpeek _ ih =>
    have hget := peekToken_error hpeek
    exact (ih ((upcoming_throws hget).2.1.trans hstyle)).throws hget
  | putback hget _ ih =>
    exact ((ih ((consumes_putback hget).style.trans hstyle)).putback hget).1
  | readFrom hread _ ih =>
    subst hstyle
    obtain ⟨p, bs, hstep, -⟩ := readFromLexer_reads hread
    exact (ih hstep.style).readFrom hread

/-- `peek_token` returns what `get_token` would and the next one does, and the value can be read in
between. -/
def PeeksNext (L : Lexer D) : Prop :=
  ∀ t L₁, peekToken L = .ok t L₁ → ∃ L₂, getToken L = .ok t L₂ ∧ getToken L₁ = .ok t L₂ ∧
    (∀ v, stringValue L₁ = .ok v L₁ ↔ stringValue L₂ = .ok v L₂) ∧
    ∀ d, numValue L₁ = .ok d L₁ ↔ numValue L₂ = .ok d L₂

theorem peeksNext (L : Lexer D) : PeeksNext L := by
  intro t L₁ hpeek
  obtain ⟨L₂, hget, rfl⟩ := peekToken_ok_iff.1 hpeek
  refine ⟨L₂, hget, getToken_putback hget, fun v => ?_, fun d => ?_⟩
  · by_cases hvalue : L₂.currentToken_ = .STRING ∨ L₂.currentToken_ = .IDENT
    · simp [stringValue, putback, hvalue]
    · simp [stringValue, putback, hvalue]
  · by_cases hvalue : L₂.currentToken_ = .NUM
    · simp [numValue, putback, hvalue]
    · simp [numValue, putback, hvalue]

/-- A `read_from` that returns takes the pairs that it defines, and the next token is the first one in
the place of a key that is no identifier. -/
def StopsAtKey (style : LexerStyle) (L : Lexer D) : Prop :=
  ∀ ps throwing reg L₁ reg₁, readFromLexer style ps throwing (L, reg) = .ok () (L₁, reg₁) →
    ∃ p bs, L.upcoming = p.map .ok ++ₛ L₁.upcoming ∧ PairsAt ps L.filename_ p bs L₁.upcoming ∧
      reg₁ = reg.defineAll bs ∧ ∃ t L₂, getToken L₁ = .ok t L₂ ∧ t ≠ .IDENT

theorem getToken_of_nextIsNot {u : Token} (h : NextIsNot u L.upcoming) :
    ∃ t L₁, getToken L = .ok t L₁ ∧ t ≠ u := by
  obtain ⟨x, hx, hne⟩ := h
  cases hget : getToken L with
  | ok t L₁ =>
    refine ⟨t, L₁, rfl, ?_⟩
    rw [(consumes_getToken hget).upcoming] at hx
    cases hx
    rwa [token_lexeme, (getToken_ok hget).2.1] at hne
  | error e L₁ =>
    rw [(upcoming_throws hget).1] at hx
    cases hx

theorem stopsAtKey (L : Lexer D) : StopsAtKey L.style L := by
  intro ps throwing reg L₁ reg₁ hread
  obtain ⟨p, bs, hstep, hpairs, hreg⟩ := readFromLexer_reads hread
  exact ⟨p, bs, hstep.upcoming, hpairs, hreg, getToken_of_nextIsNot hpairs.next⟩

/-- **Lookahead loses and duplicates nothing.** What the calls of a run have consumed, followed by
what comes then, is the token sequence of the text. -/
theorem lookahead_exact {text : Text} {filename_ : String} {style : LexerStyle}
    {evs : List (Event D)} (h : Runs style (open_ (.ofText text) filename_ style) evs L) :
    (∃ out, Consumed filename_ L.upcoming evs out ∧
      scanned (open_ (.ofText text) filename_ style) = out ++ₛ L.upcoming) ∧
    PeeksNext L ∧ StopsAtKey style L := by
  have hscanned : (open_ (.ofText text) filename_ style : Lexer D).upcoming = scanned _ :=
    upcoming_of_not_hold rfl
  obtain ⟨hstyle, hconsumed⟩ := h.accounted rfl
  rw [hscanned] at hconsumed
  have hstop := stopsAtKey L
  rw [hstyle] at hstop
  exact ⟨hconsumed, peeksNext L, hstop⟩

/-- `a` is peeked at and then got. -/
theorem lookahead_exact_peeked :
    ∃ (L : Lexer ℕ) (out : List (Except Exn (Lexeme ℕ × ℕ))),
      Consumed "f" L.upcoming [.peeked (.ident ['a'], 1), .got (.ident ['a'], 1)] out ∧
        scanned (open_ (.ofText ['a']) "f" {}) = out ++ₛ L.upcoming := by
  have htokens : (open_ (.ofText ['a']) "f" {} : Lexer ℕ).tokens =
      ⟨[(.ident ['a'], 1)], .finished⟩ := by decide +kernel
  obtain ⟨-, L, hget, hat, -⟩ := getToken_cons htokens
  have hrun : Runs {} (open_ (.ofText ['a']) "f" {}) _ L :=
    .peek (peekToken_ok_iff.2 ⟨L, hget, rfl⟩) (.get (getToken_putback hget) (.done L))
  obtain ⟨⟨out, hout, hleft⟩, -⟩ := lookahead_exact hrun
  refine ⟨L, out, ?_, hleft⟩
  change Consumed "f" _ [.peeked (L.lexeme, L.lineNo_), .got (L.lexeme, L.lineNo_)] out at hout
  rwa [hat.lexeme, hat.line] at hout

end runs

end Nanonet
