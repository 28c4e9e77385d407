import Nanonet.Registry.Ast
import Nanonet.Registry.ParserComplete
import Nanonet.Registry.Termination

/-!
# The term parser is exact

On every token sequence `parse_term` returns what the sequence derives and leaves the rest, or
throws a `std::runtime_error` (`parseTerm_exact`). A value written to tokens is read back from them,
whatever its nesting (`Ast.render_derives`).
-/

namespace Nanonet

open Lexer

variable {D : Type} [NumGet D] {ps : ParserStyle}

theorem le_parseBound (L : Lexer D) : 2 * L.tokens.list.length + 2 ≤ parseBound L := by
  have := tokens_length L
  unfold parseBound
  omega

/-- `parse_term` on any lexer: what it returns, and what is left of the tokens. -/
theorem parseTerm_ok_iff (hps : ps.Proper) {L : Lexer D} {v : Value D} {rest : Tokens D} :
    (∃ L', parseTerm ps L = .ok v L' ∧ L'.tokens = rest) ↔
      ∃ p, L.tokens = ⟨p ++ rest.list, rest.ending⟩ ∧ Term ps p v ∧ Follow ps p rest := by
  constructor
  · rintro ⟨L', h, rfl⟩
    obtain ⟨-, p, hp, hfollow, htokens⟩ := (parse_sound hps _).1 v L L' h
    exact ⟨p, htokens, hp, hfollow⟩
  · rintro ⟨p, htokens, hp, hfollow⟩
    have hlen := le_parseBound L
    rw [htokens, List.length_append] at hlen
    exact (parse_complete hps _).1 p v hp (by omega) L rest htokens hfollow

/-! ### The parser -/

/-- **The term parser is exact.** `parse_term` returns `v` and leaves `rest` iff a prefix of the
tokens derives `v` and `rest` is the remainder; where no prefix does, it throws; and the tokens a
value is written to are read back to the value. -/
theorem parseTerm_exact (hps : ps.Proper) (L : Lexer D) :
    (∀ (v : Value D) (rest : Tokens D),
      (∃ L', parseTerm ps L = .ok v L' ∧ L'.tokens = rest ∧ L'.Yields rest) ↔
        ∃ p, L.tokens = ⟨p ++ rest.list, rest.ending⟩ ∧ Term ps p v ∧ Follow ps p rest) ∧
    ((∀ (v : Value D) (p : Located D) (rest : Tokens D),
        L.tokens = ⟨p ++ rest.list, rest.ending⟩ → Term ps p v → ¬ Follow ps p rest) →
      ∃ what L', parseTerm ps L = .error (.runtimeError what) L') ∧
    (∀ (a : Ast D) (sep : List (Lexeme D)) (p : Located D) (rest : Tokens D),
      Ast.Separates ps sep → p.map Prod.fst = a.render ps sep → Follow ps p rest →
      L.tokens = ⟨p ++ rest.list, rest.ending⟩ →
      ∃ L', parseTerm ps L = .ok a.value L' ∧ L'.tokens = rest) := by
  refine ⟨fun v rest => ?_, fun hnone => ?_, fun a sep p rest hsep hp hfollow htokens => ?_⟩
  · rw [← parseTerm_ok_iff hps]
    constructor
    · rintro ⟨L', hparse, htokens, -⟩
      exact ⟨L', hparse, htokens⟩
    · rintro ⟨L', hparse, rfl⟩
      exact ⟨L', hparse, rfl, L'.yields_tokens⟩
  · have hdefined := defined_parseTerm hps.delimited L
    cases hparse : parseTerm ps L with
    | ok v L' =>
      obtain ⟨p, htokens, hp, hfollow⟩ := (parseTerm_ok_iff hps).1 ⟨L', hparse, rfl⟩
      exact absurd hfollow (hnone v p _ htokens hp)
    | error e L' =>
      obtain ⟨what, rfl⟩ := hdefined.isRuntime hparse
      exact ⟨what, L', rfl⟩
  · exact (parseTerm_ok_iff hps).2 ⟨p, htokens, Ast.render_derives hsep a p hp, hfollow⟩

theorem configStyle_proper : configStyle.parserStyle.Proper := ⟨by decide, by decide, by decide⟩

/-- `a(1 b) 2` in `config_style()`: the expression is returned, and `2` is left. -/
theorem parseTerm_exact_expression :
    ∃ L', parseTerm configStyle.parserStyle
        (open_ (D := ℕ) (.ofText ['a', '(', '1', ' ', 'b', ')', ' ', '2']) "f"
          configStyle.lexerStyle) =
        .ok (.expression ['a'] [.num 1, .string ['b']]) L' ∧
      L'.tokens = ⟨[(.num 2, 1)], .finished⟩ :=
  (parseTerm_exact configStyle_proper _).2.2 (.expression ['a'] [.num 1, .ident ['b']]) []
    [(.ident ['a'], 1), (.punct .LP, 1), (.num 1, 1), (.ident ['b'], 1), (.punct .RP, 1)]
    ⟨[(.num 2, 1)], .finished⟩ (.inr ⟨rfl, rfl⟩) rfl (fun s line h => by simp at h)
    (by decide +kernel)

end Nanonet
