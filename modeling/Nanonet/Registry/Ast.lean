import Nanonet.Registry.Derivation

/-!
# Written values

A value written to tokens, `render`, derives the value, whatever its nesting
(`Ast.render_derives`). The induction is on the value, together with its lists of elements.
-/

namespace Nanonet

variable {D : Type} {ps : ParserStyle}

/-- A value before identifiers and strings are both stored as `std::string`. -/
inductive Ast (D : Type) where
  | num (value : D)
  | string (value : Text)
  | ident (name : Text)
  | list (elements : List (Ast D))
  | expression (head : Text) (tail : List (Ast D))

namespace Ast

mutual

/-- The value the registry stores. -/
def value : Ast D → Value D
  | .num d => .num d
  | .string s => .string s
  | .ident s => .string s
  | .list as => .list (values as)
  | .expression head as => .expression head (values as)

def values : List (Ast D) → List (Value D)
  | [] => []
  | a :: as => a.value :: values as

end

mutual

/-- The tokens of a value, with `sep` between two elements. -/
def render (ps : ParserStyle) (sep : List (Lexeme D)) : Ast D → List (Lexeme D)
  | .num d => [.num d]
  | .string s => [.string s]
  | .ident s => [.ident s]
  | .list as =>
    .punct ps.listOpenToken :: (renderElems ps sep as ++ [.punct ps.listCloseToken])
  | .expression head as =>
    .ident head :: .punct ps.expressionOpenToken ::
      (renderElems ps sep as ++ [.punct ps.expressionCloseToken])

def renderElems (ps : ParserStyle) (sep : List (Lexeme D)) : List (Ast D) → List (Lexeme D)
  | [] => []
  | a :: as => render ps sep a ++ renderMore ps sep as

def renderMore (ps : ParserStyle) (sep : List (Lexeme D)) : List (Ast D) → List (Lexeme D)
  | [] => []
  | a :: as => sep ++ (render ps sep a ++ renderMore ps sep as)

end

/-- Separators the style accepts everywhere between two elements. -/
def Separates (ps : ParserStyle) (sep : List (Lexeme D)) : Prop :=
  sep = [.punct .COMMA] ∨ ps.commaStyle = .commaOptional ∧ sep = []

theorem located_cons {q : Located D} {x : Lexeme D} {xs : List (Lexeme D)}
    (h : q.map Prod.fst = x :: xs) : ∃ line q', q = (x, line) :: q' ∧ q'.map Prod.fst = xs := by
  obtain ⟨⟨y, line⟩, q', hq, rfl, hq'⟩ := List.map_eq_cons_iff.1 h
  exact ⟨line, q', hq, hq'⟩

theorem located_single {q : Located D} {x : Lexeme D} (h : q.map Prod.fst = [x]) :
    ∃ line, q = [(x, line)] := by
  obtain ⟨line, q', rfl, hq'⟩ := located_cons h
  obtain rfl : q' = [] := by simpa using hq'
  exact ⟨line, rfl⟩

theorem Separates.separator {sep : List (Lexeme D)} (h : Separates ps sep) {q : Located D}
    (hq : q.map Prod.fst = sep) : Separator ps q := by
  rcases h with rfl | ⟨hstyle, rfl⟩
  · obtain ⟨line, rfl⟩ := located_single hq
    exact .comma line
  · obtain rfl : q = [] := by simpa using hq
    exact .none hstyle

mutual

theorem render_derives {sep : List (Lexeme D)} (hsep : Separates ps sep) :
    ∀ (a : Ast D) (q : Located D), q.map Prod.fst = a.render ps sep → Term ps q a.value
  | .num d, q, h => by
    obtain ⟨line, rfl⟩ := located_single h
    exact .num d line
  | .string s, q, h => by
    obtain ⟨line, rfl⟩ := located_single h
    exact .string s line
  | .ident s, q, h => by
    obtain ⟨line, rfl⟩ := located_single h
    exact .ident s line
  | .list as, q, h => by
    obtain ⟨lo, q₁, rfl, h₁⟩ := located_cons h
    obtain ⟨q₂, tail, rfl, hq₂, htail⟩ := List.map_eq_append_iff.1 h₁
    obtain ⟨lc, rfl⟩ := located_single htail
    exact .list lo lc (renderElems_derives hsep as q₂ hq₂)
  | .expression head as, q, h => by
    obtain ⟨line, q₁, rfl, h₁⟩ := located_cons h
    obtain ⟨lo, q₂, rfl, h₂⟩ := located_cons h₁
    obtain ⟨q₃, tail, rfl, hq₃, htail⟩ := List.map_eq_append_iff.1 h₂
    obtain ⟨lc, rfl⟩ := located_single htail
    exact .expression head line lo lc (renderElems_derives hsep as q₃ hq₃)

theorem renderElems_derives {sep : List (Lexeme D)} (hsep : Separates ps sep) :
    ∀ (as : List (Ast D)) (q : Located D), q.map Prod.fst = renderElems ps sep as →
      Elems ps q (values as)
  | [], q, h => by
    obtain rfl : q = [] := by simpa [renderElems] using h
    exact .nil
  | a :: as, q, h => by
    obtain ⟨p, q, rfl, hp, hq⟩ := List.map_eq_append_iff.1 h
    exact .cons (render_derives hsep a p hp) (renderMore_derives hsep as q hq)

theorem renderMore_derives {sep : List (Lexeme D)} (hsep : Separates ps sep) :
    ∀ (as : List (Ast D)) (q : Located D), q.map Prod.fst = renderMore ps sep as →
      More ps q (values as)
  | [], q, h => by
    obtain rfl : q = [] := by simpa [renderMore] using h
    exact .nil
  | a :: as, q, h => by
    obtain ⟨s, q, rfl, hs, hq⟩ := List.map_eq_append_iff.1 h
    obtain ⟨p, q, rfl, hp, hq⟩ := List.map_eq_append_iff.1 hq
    exact .cons (hsep.separator hs) (render_derives hsep a p hp) (renderMore_derives hsep as q hq)

end

end Ast

end Nanonet
