import Nanonet.Registry.Derivation

/-!
# Soundness of the term parser

What `parse_term` and `parse_list` return is derived by the tokens they have read (`parse_sound`).
The induction is on the bound, for both functions together: each step lemma takes the other
function's statement at the smaller bound.
-/

namespace Nanonet

open Lexer

variable {D : Type} [NumGet D] {ps : ParserStyle}

theorem parseSeparator_sound {first : Bool} {L L' : Lexer D} {x : Lexeme D × Nat}
    {rest : Tokens D} (h : parseSeparator ps first L = .ok () L') (hat : At L x rest)
    (hne : x.1.token ≠ .END) :
    L'.filename_ = L.filename_ ∧ ∃ sep, Gap ps first sep ∧
      x :: rest.list = sep ++ L'.tokens.list ∧ rest.ending = L'.tokens.ending := by
  have hputback := hat.putback hne
  rw [parseSeparator_eq] at h
  split_ifs at h with hfirst hcomma
  · obtain rfl : L.putback = L' := by simpa using h
    exact ⟨rfl, [], by simp [Gap, hfirst], by simp [hputback]⟩
  · obtain rfl : L = L' := by simpa using h
    have hx : x = (.punct .COMMA, x.2) :=
      Prod.ext (punct_of_token (hat.currentToken ▸ hcomma) (by decide) (by decide) (by decide)) rfl
    refine ⟨rfl, [x], ?_, by simp [hat.tokens]⟩
    rw [Bool.not_eq_true] at hfirst
    rw [hfirst, hx]
    exact Separator.comma _
  · split at h
    · simp [throwHere] at h
    · next hstyle =>
      obtain rfl : L.putback = L' := by simpa using h
      rw [Bool.not_eq_true] at hfirst
      exact ⟨rfl, [], by rw [hfirst]; exact .none hstyle, by simp [hputback]⟩

theorem parseSeparator_END {first : Bool} {L L' : Lexer D}
    (h : parseSeparator ps first L = .ok () L') (hEND : L.currentToken_ = .END)
    (hputback : L.putback.tokens = ⟨[], .finished⟩) : L'.tokens = ⟨[], .finished⟩ := by
  rw [parseSeparator_eq] at h
  split_ifs at h with hfirst hcomma
  · obtain rfl : L.putback = L' := by simpa using h
    exact hputback
  · simp [hEND] at hcomma
  · split at h
    · simp [throwHere] at h
    · obtain rfl : L.putback = L' := by simpa using h
      exact hputback

def SoundTerm (ps : ParserStyle) (v : Value D) (L L' : Lexer D) : Prop :=
  L'.filename_ = L.filename_ ∧ ∃ p, Term ps p v ∧ Follow ps p L'.tokens ∧
    L.tokens = ⟨p ++ L'.tokens.list, L'.tokens.ending⟩

/-- What the loop of `parse_list` has read, the closing token included. -/
def SoundList (ps : ParserStyle) (close : Token) (first : Bool) (vs : List (Value D))
    (L L' : Lexer D) : Prop :=
  L'.filename_ = L.filename_ ∧ ∃ q line, Body ps first q vs ∧
    L.tokens = ⟨q ++ (.punct close, line) :: L'.tokens.list, L'.tokens.ending⟩

theorem parseListLoop_step_sound (hps : ps.Proper) {close : Token} (hclose : Closes ps close)
    {fuel : Nat} (ihTerm : ∀ (v : Value D) (L L' : Lexer D),
      parseTermLoop ps fuel L = .ok v L' → SoundTerm ps v L L')
    (ihList : ∀ (vs : List (Value D)) (L L' : Lexer D),
      parseListLoop ps close fuel false L = .ok vs L' → SoundList ps close false vs L L')
    {first : Bool} {vs : List (Value D)} {L L' : Lexer D}
    (h : parseListLoop ps close (fuel + 1) first L = .ok vs L') :
    SoundList ps close first vs L L' := by
  cases parseListLoop_ok h with
  | closed hget =>
    obtain ⟨hfile, hcurrent, htokens⟩ := getToken_lexeme hget (hps.close_ne_END hclose)
    rw [closes_punct hps hclose ((token_lexeme L').trans hcurrent)] at htokens
    exact ⟨hfile, [], L'.lineNo_, Body.nil first, htokens⟩
  | @element t L₁ L₂ L₃ _ v vs hget _ hsep hterm hlist =>
    obtain ⟨hfile₃, p, hp, -, htokens₂⟩ := ihTerm v L₂ L₃ hterm
    obtain ⟨hfile₄, q, line, hq, htokens₃⟩ := ihList vs L₃ L' hlist
    obtain ⟨hfile, hcurrent, htokens⟩ := getToken_ok hget
    rcases htokens with ⟨rfl, -, hputback⟩ | ⟨hne, x, rfl, hat, htokens⟩
    · -- the end of the text: a term does not start there
      rw [parseSeparator_END hsep hcurrent hputback] at htokens₂
      obtain ⟨y, ys, rfl, -⟩ := hp.starts
      simp at htokens₂
    · obtain ⟨hfile₂, sep, hgap, hlist₂, hending₂⟩ := parseSeparator_sound hsep hat hne
      refine ⟨hfile₄.trans (hfile₃.trans (hfile₂.trans hfile)), sep ++ (p ++ q), line,
        Body.cons hgap hp hq, ?_⟩
      rw [htokens, hlist₂, hending₂, htokens₂, htokens₃]
      simp

/-! ### The terms, by what they start with -/

section terms

variable {L L₁ L₂ L' : Lexer D} {vs : List (Value D)}

theorem soundTerm_num (hget : getToken L = .ok .NUM L₁) :
    SoundTerm ps (.num L₁.numValue_) L L₁ := by
  obtain ⟨hfile, hcurrent, htokens⟩ := getToken_lexeme hget (by decide)
  rw [num_of_token hcurrent] at htokens
  refine ⟨hfile, _, .num _ L₁.lineNo_, ?_, htokens⟩
  intro s line heq
  simp at heq

theorem soundTerm_string (hget : getToken L = .ok .STRING L₁) :
    SoundTerm ps (.string L₁.stringValue_) L L₁ := by
  obtain ⟨hfile, hcurrent, htokens⟩ := getToken_lexeme hget (by decide)
  rw [string_of_token hcurrent] at htokens
  refine ⟨hfile, _, .string _ L₁.lineNo_, ?_, htokens⟩
  intro s line heq
  simp at heq

theorem soundTerm_ident {t : Token} (hget : getToken L = .ok .IDENT L₁)
    (hget' : getToken L₁ = .ok t L₂) (hopen : t ≠ ps.expressionOpenToken) :
    SoundTerm ps (.string L₁.stringValue_) L L₂.putback := by
  obtain ⟨hfile, hcurrent, htokens⟩ := getToken_lexeme hget (by decide)
  obtain ⟨hfile', -, hnext⟩ := getToken_ok hget'
  rw [ident_of_token hcurrent] at htokens
  -- giving the token back restores what was there after the identifier
  have hputback : L₂.putback.tokens = L₁.tokens := by
    rcases hnext with ⟨-, hend, hputback⟩ | ⟨hne, y, rfl, hat, htokens'⟩
    · rw [hputback, hend]
    · rw [hat.putback hne, htokens']
  refine ⟨hfile'.trans hfile, _, .ident _ L₁.lineNo_, ?_, ?_⟩
  · intro s line _
    rw [hputback]
    rcases hnext with ⟨-, hend, -⟩ | ⟨-, y, rfl, -, htokens'⟩
    · rw [hend]
    · rw [htokens']
      exact hopen
  · rw [hputback]
    exact htokens

theorem soundTerm_expression (hps : ps.Proper) (hget : getToken L = .ok .IDENT L₁)
    (hget' : getToken L₁ = .ok ps.expressionOpenToken L₂)
    (hlist : SoundList ps ps.expressionCloseToken true vs L₂ L') :
    SoundTerm ps (.expression L₁.stringValue_ vs) L L' := by
  obtain ⟨hfile, hcurrent, htokens⟩ := getToken_lexeme hget (by decide)
  obtain ⟨hfile₂, hcurrent₂, htokens₂⟩ := getToken_lexeme hget' hps.END_ne_open.symm
  obtain ⟨hfile', q, line, hq, htokens'⟩ := hlist
  rw [hps.open_punct ((token_lexeme L₂).trans hcurrent₂)] at htokens₂
  rw [ident_of_token hcurrent] at htokens
  refine ⟨hfile'.trans (hfile₂.trans hfile), _,
    .expression _ L₁.lineNo_ L₂.lineNo_ line hq, ?_, ?_⟩
  · intro s ln heq
    simp at heq
  · rw [htokens, htokens₂, htokens']
    simp

theorem soundTerm_list (hps : ps.Proper) (hget : getToken L = .ok ps.listOpenToken L₁)
    (hlist : SoundList ps ps.listCloseToken true vs L₁ L') : SoundTerm ps (.list vs) L L' := by
  obtain ⟨hfile, hcurrent, htokens⟩ := getToken_lexeme hget hps.END_ne_list.symm
  obtain ⟨hfile', q, line, hq, htokens'⟩ := hlist
  rw [hps.list_punct ((token_lexeme L₁).trans hcurrent)] at htokens
  refine ⟨hfile'.trans hfile, _, .list L₁.lineNo_ line hq, ?_, ?_⟩
  · intro s ln heq
    simp at heq
  · rw [htokens, htokens']
    simp

end terms

theorem parseTermLoop_step_sound (hps : ps.Proper) {fuel : Nat}
    (ihList : ∀ (close : Token) (vs : List (Value D)) (L L' : Lexer D), Closes ps close →
      parseListLoop ps close fuel true L = .ok vs L' → SoundList ps close true vs L L')
    {v : Value D} {L L' : Lexer D} (h : parseTermLoop ps (fuel + 1) L = .ok v L') :
    SoundTerm ps v L L' := by
  cases parseTermLoop_ok h with
  | num hget => exact soundTerm_num hget
  | string hget => exact soundTerm_string hget
  | expression hget hget' hlist =>
    exact soundTerm_expression hps hget hget' (ihList _ _ _ _ (.inr rfl) hlist)
  | ident hget hget' hopen => exact soundTerm_ident hget hget' hopen
  | list hget _ hlist => exact soundTerm_list hps hget (ihList _ _ _ _ (.inl rfl) hlist)

theorem parse_sound (hps : ps.Proper) (fuel : Nat) :
    (∀ (v : Value D) (L L' : Lexer D),
      parseTermLoop ps fuel L = .ok v L' → SoundTerm ps v L L') ∧
    (∀ (close : Token) (first : Bool) (vs : List (Value D)) (L L' : Lexer D), Closes ps close →
      parseListLoop ps close fuel first L = .ok vs L' → SoundList ps close first vs L L') := by
  induction fuel with
  | zero => exact ⟨fun v L L' h => by simp [parseTermLoop] at h,
      fun close first vs L L' _ h => by simp [parseListLoop] at h⟩
  | succ fuel ih =>
    exact ⟨fun v L L' h => parseTermLoop_step_sound hps
        (fun close vs L L' hclose => ih.2 close true vs L L' hclose) h,
      fun close first vs L L' hclose h => parseListLoop_step_sound hps hclose ih.1
        (fun vs L L' => ih.2 close false vs L L' hclose) h⟩

end Nanonet
