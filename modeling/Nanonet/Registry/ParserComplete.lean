import Nanonet.Registry.ParserSound

/-!
# Completeness of the term parser

Tokens that derive a value, closed or followed as `parse_term` needs it, are read to that value
(`parse_complete`), given a bound of twice their number.
-/

namespace Nanonet

open Lexer

variable {D : Type} [NumGet D] {ps : ParserStyle}

omit [NumGet D] in
theorem follow_more (hps : ps.Proper) {close : Token} (hclose : Closes ps close)
    {p q : Located D} {vs : List (Value D)} (hmore : More ps q vs) (line : Nat) (rest : Tokens D) :
    Follow ps p ⟨q ++ (.punct close, line) :: rest.list, rest.ending⟩ := by
  intro s ln _
  rcases hmore.head with rfl | ⟨x, xs, rfl, hcomma | hstarts⟩
  · exact hps.close_ne_open hclose
  · exact fun h => hps.comma_ne_open (hcomma.symm.trans h)
  · exact hps.starts_ne_open hstarts

theorem parseSeparator_complete (hps : ps.Proper) {close : Token} (hclose : Closes ps close)
    {first : Bool} {sep p tail : Located D} {v : Value D} {e : Ending} {L : Lexer D}
    (hgap : Gap ps first sep) (hterm : Term ps p v) (h : L.tokens = ⟨sep ++ (p ++ tail), e⟩) :
    ∃ t L₁ L₂, getToken L = .ok t L₁ ∧ t ≠ close ∧ parseSeparator ps first L₁ = .ok () L₂ ∧
      L₂.tokens = ⟨p ++ tail, e⟩ := by
  obtain ⟨x, xs, rfl, hstarts⟩ := hterm.starts
  have hgiven : sep = [] → (first = true ∨ ps.commaStyle = .commaOptional) →
      ∃ t L₁ L₂, getToken L = .ok t L₁ ∧ t ≠ close ∧ parseSeparator ps first L₁ = .ok () L₂ ∧
        L₂.tokens = ⟨x :: xs ++ tail, e⟩ := by
    -- the token read is the first one of the term, and it is given back
    rintro rfl hback
    obtain ⟨hne, L₁, hget, hat, -⟩ := getToken_cons h
    refine ⟨_, L₁, L₁.putback, hget, hps.starts_ne_close hstarts hclose, ?_, hat.putback hne⟩
    have hcomma : L₁.currentToken_ ≠ .COMMA := hat.currentToken ▸ hps.starts_ne_comma hstarts
    rw [parseSeparator_eq]
    rcases hback with hfirst | hstyle
    · simp [hfirst]
    · simp [hcomma, hstyle]
  cases first with
  | true => exact hgiven hgap (.inl rfl)
  | false =>
    cases hgap with
    | none hstyle => exact hgiven rfl (.inr hstyle)
    | comma line =>
      obtain ⟨-, L₁, hget, hat, -⟩ := getToken_cons h
      refine ⟨_, L₁, L₁, hget, hps.comma_ne_close hclose, ?_, hat.tokens⟩
      have hcomma : L₁.currentToken_ = .COMMA := hat.currentToken
      simp [parseSeparator_eq, hcomma]

/-- `parse_term` reads `p` to `v` with bound `fuel`, whatever may follow. -/
def CompleteTerm (ps : ParserStyle) (fuel : Nat) (p : Located D) (v : Value D) : Prop :=
  ∀ (L : Lexer D) (rest : Tokens D), L.tokens = ⟨p ++ rest.list, rest.ending⟩ →
    Follow ps p rest → ∃ L', parseTermLoop ps fuel L = .ok v L' ∧ L'.tokens = rest

/-- `parse_list` reads `q` and the closing token to `vs` with bound `fuel`. -/
def CompleteList (ps : ParserStyle) (close : Token) (fuel : Nat) (first : Bool) (q : Located D)
    (vs : List (Value D)) : Prop :=
  ∀ (L : Lexer D) (line : Nat) (rest : Tokens D),
    L.tokens = ⟨q ++ (.punct close, line) :: rest.list, rest.ending⟩ →
      ∃ L', parseListLoop ps close fuel first L = .ok vs L' ∧ L'.tokens = rest

theorem parseListLoop_close {close : Token} {fuel : Nat} {first : Bool} :
    CompleteList (D := D) ps close (fuel + 1) first [] [] := by
  intro L line rest h
  obtain ⟨-, L₁, hget, hat, -⟩ := getToken_cons h
  change getToken L = .ok close L₁ at hget
  refine ⟨L₁, ?_, hat.tokens⟩
  rw [parseListLoop, Call.bind_ok hget, if_pos rfl]
  rfl

theorem parseListLoop_element (hps : ps.Proper) {close : Token} (hclose : Closes ps close)
    {fuel : Nat} {first : Bool} {sep p q : Located D} {v : Value D} {vs : List (Value D)}
    (hgap : Gap ps first sep) (hterm : Term ps p v) (hmore : More ps q vs)
    (ihTerm : CompleteTerm ps fuel p v) (ihList : CompleteList ps close fuel false q vs) :
    CompleteList ps close (fuel + 1) first (sep ++ (p ++ q)) (v :: vs) := by
  intro L line rest h
  rw [List.append_assoc, List.append_assoc] at h
  obtain ⟨t, L₁, L₂, hget, hne, hsep, htokens⟩ :=
    parseSeparator_complete hps hclose hgap hterm h
  obtain ⟨L₃, hparse, htokens₃⟩ :=
    ihTerm L₂ ⟨q ++ (.punct close, line) :: rest.list, rest.ending⟩ htokens
      (follow_more hps hclose hmore line rest)
  obtain ⟨L₄, hlist, htokens₄⟩ := ihList L₃ line rest htokens₃
  refine ⟨L₄, ?_, htokens₄⟩
  rw [parseListLoop, Call.bind_ok hget, if_neg hne, Call.bind_ok hsep, Call.bind_ok hparse,
    Call.bind_ok hlist]
  rfl

theorem parseTermLoop_complete (hps : ps.Proper) {fuel : Nat} {p : Located D} {v : Value D}
    (hterm : Term ps p v)
    (ihList : ∀ (close : Token) (q : Located D) (vs : List (Value D)), Closes ps close →
      Elems ps q vs → q.length + 2 ≤ p.length → CompleteList ps close fuel true q vs) :
    CompleteTerm ps (fuel + 1) p v := by
  intro L rest h hfollow
  cases hterm with
  | num d line =>
    obtain ⟨-, L₁, hget, hat, -⟩ := getToken_cons h
    change getToken L = .ok .NUM L₁ at hget
    refine ⟨L₁, ?_, hat.tokens⟩
    rw [parseTermLoop, Call.bind_ok hget, if_pos rfl, Call.bind_ok (numValue_num hat.lexeme)]
    rfl
  | string s line =>
    obtain ⟨-, L₁, hget, hat, -⟩ := getToken_cons h
    change getToken L = .ok .STRING L₁ at hget
    refine ⟨L₁, ?_, hat.tokens⟩
    rw [parseTermLoop, Call.bind_ok hget, if_neg (by decide), if_pos rfl,
      Call.bind_ok (stringValue_string hat.lexeme)]
    rfl
  | ident s line =>
    obtain ⟨-, L₁, hget, hat, -⟩ := getToken_cons h
    change getToken L = .ok .IDENT L₁ at hget
    -- the token after the identifier is read and given back
    obtain ⟨t, L₂, hget', hne, htokens⟩ : ∃ t L₂, getToken L₁ = .ok t L₂ ∧
        t ≠ ps.expressionOpenToken ∧ L₂.putback.tokens = rest := by
      have hnext := hfollow s line rfl
      rcases rest with ⟨_ | ⟨x, xs⟩, e⟩
      · obtain rfl : e = .finished := hnext
        obtain ⟨L₂, hget', -, hputback, -⟩ := getToken_nil hat.tokens
        exact ⟨_, L₂, hget', hps.END_ne_open, hputback⟩
      · obtain ⟨hEND, L₂, hget', hat', -⟩ := getToken_cons hat.tokens
        exact ⟨_, L₂, hget', hnext, hat'.putback hEND⟩
    refine ⟨L₂.putback, ?_, htokens⟩
    rw [parseTermLoop, Call.bind_ok hget, if_neg (by decide), if_neg (by decide), if_pos rfl,
      Call.bind_ok (stringValue_ident hat.lexeme), Call.bind_ok hget', if_neg hne]
    rfl
  | @expression head line lo lc q vs helems =>
    obtain ⟨-, L₁, hget, hat, -⟩ := getToken_cons h
    change getToken L = .ok .IDENT L₁ at hget
    obtain ⟨-, L₂, hget', hat', -⟩ := getToken_cons hat.tokens
    change getToken L₁ = .ok ps.expressionOpenToken L₂ at hget'
    obtain ⟨L₃, hlist, htokens⟩ := ihList _ q vs (.inr rfl) helems (by simp) L₂ lc rest
      (by simpa using hat'.tokens)
    refine ⟨L₃, ?_, htokens⟩
    rw [parseTermLoop, Call.bind_ok hget, if_neg (by decide), if_neg (by decide), if_pos rfl,
      Call.bind_ok (stringValue_ident hat.lexeme), Call.bind_ok hget', if_pos rfl,
      Call.bind_ok hlist]
    rfl
  | @list lo lc q vs helems =>
    obtain ⟨-, L₁, hget, hat, -⟩ := getToken_cons h
    change getToken L = .ok ps.listOpenToken L₁ at hget
    obtain ⟨L₂, hlist, htokens⟩ := ihList _ q vs (.inl rfl) helems (by simp) L₁ lc rest
      (by simpa using hat.tokens)
    obtain ⟨hNUM, hSTRING, hIDENT⟩ := hps.list_ne_value
    refine ⟨L₂, ?_, htokens⟩
    rw [parseTermLoop, Call.bind_ok hget, if_neg hNUM, if_neg hSTRING, if_neg hIDENT, if_pos rfl,
      Call.bind_ok hlist]
    rfl

theorem parse_complete (hps : ps.Proper) (fuel : Nat) :
    (∀ (p : Located D) (v : Value D), Term ps p v → 2 * p.length ≤ fuel →
      CompleteTerm ps fuel p v) ∧
    (∀ (close : Token) (first : Bool) (q : Located D) (vs : List (Value D)), Closes ps close →
      Body ps first q vs → 2 * q.length + 1 ≤ fuel → CompleteList ps close fuel first q vs) := by
  induction fuel with
  | zero =>
    refine ⟨fun p v hterm hfuel => ?_, fun close first q vs _ _ hfuel => by omega⟩
    obtain ⟨x, xs, rfl, -⟩ := hterm.starts
    simp at hfuel
  | succ fuel ih =>
    refine ⟨fun p v hterm hfuel => parseTermLoop_complete hps hterm
      fun close q vs hclose helems hlen => ih.2 close true q vs hclose helems (by omega), ?_⟩
    intro close first q vs hclose hbody hfuel
    rcases hbody.inv with ⟨rfl, rfl⟩ | ⟨sep, p, q', v, vs', rfl, rfl, hgap, hterm, hmore⟩
    · exact parseListLoop_close
    · obtain ⟨x, xs, hp, -⟩ := hterm.starts
      have hlen : p.length = xs.length + 1 := by rw [hp]; rfl
      simp only [List.length_append] at hfuel
      exact parseListLoop_element hps hclose hgap hterm hmore (ih.1 p v hterm (by omega))
        (ih.2 close false q' vs' hclose hmore (by omega))

end Nanonet
