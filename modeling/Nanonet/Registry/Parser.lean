import Nanonet.Registry.Lexer

/-!
# The registry's parser

`parser` of `registry.h` and `registry.cpp`: `parse_term` and `parse_list` call each other and hand
an unread token back through the lexer's hold flag. The recursion runs on a bound; `parseTerm`
takes one that the length of the text is enough for.
-/

namespace Nanonet

inductive CommaStyle where
  | commaRequired | commaOptional
  deriving DecidableEq, Repr

structure ParserStyle where
  commaStyle : CommaStyle := .commaRequired
  listDelimiter : Token := .LB
  expressionDelimiter : Token := .LP
  deriving DecidableEq, Repr

namespace ParserStyle

def listOpenToken (ps : ParserStyle) : Token := ps.listDelimiter
def listCloseToken (ps : ParserStyle) : Token := closingToken ps.listDelimiter
def expressionOpenToken (ps : ParserStyle) : Token := ps.expressionDelimiter
def expressionCloseToken (ps : ParserStyle) : Token := closingToken ps.expressionDelimiter

end ParserStyle

structure Grammar where
  parserStyle : ParserStyle
  lexerStyle : LexerStyle
  deriving DecidableEq, Repr

def configStyle : Grammar :=
  ⟨⟨.commaOptional, .LB, .LP⟩, ⟨.cComments, .doubleQuote⟩⟩

def matlabStyle : Grammar :=
  ⟨⟨.commaOptional, .LBRACKET, .LP⟩, ⟨.percentComments, .singleQuote⟩⟩

/-- What a `std::any` of the registry holds: a `double`, a `std::string` (from a quoted string or
an identifier), a list, or an `expression`. -/
inductive Value (D : Type) where
  | num (value : D)
  | string (value : Text)
  | list (elements : List (Value D))
  | expression (head : Text) (tail : List (Value D))
  deriving Repr

open Lexer

variable {D : Type} [NumGet D]

/-- What `parse_list` does between two elements, or before the first one, with a token read. -/
def parseSeparator (ps : ParserStyle) (first : Bool) : LexM D Unit :=
  if first then unget
  else
    match ps.commaStyle with
    | .commaRequired => expect .COMMA false
    | .commaOptional => do
      let t ← currentToken
      if t ≠ .COMMA then unget else pure ()

mutual

/-- `parse_list( close )` from a test of its loop on; it starts with `first` true. -/
def parseListLoop (ps : ParserStyle) (close : Token) : Nat → Bool → LexM D (List (Value D))
  | 0, _ => fun L => .error .outOfFuel L
  | fuel + 1, first => do
    let t ← getToken
    if t = close then pure []
    else do
      parseSeparator ps first
      let v ← parseTermLoop ps fuel
      let vs ← parseListLoop ps close fuel false
      pure (v :: vs)

/-- `parse_term` at nesting bound `fuel`. -/
def parseTermLoop (ps : ParserStyle) : Nat → LexM D (Value D)
  | 0 => fun L => .error .outOfFuel L
  | fuel + 1 => do
    let t ← getToken
    if t = .NUM then do
      let d ← numValue
      pure (.num d)
    else if t = .STRING then do
      let s ← stringValue
      pure (.string s)
    else if t = .IDENT then do
      let ident ← stringValue
      let t ← getToken
      if t = ps.expressionOpenToken then do
        let tail ← parseListLoop ps ps.expressionCloseToken fuel true
        pure (.expression ident tail)
      else do
        unget
        pure (.string ident)
    else if t = ps.listOpenToken then do
      let vs ← parseListLoop ps ps.listCloseToken fuel true
      pure (.list vs)
    else throwHere "number, string, identifier or list expected"

end

/-- Enough for every term on the lexer: twice the characters left, the held token counted. -/
def parseBound (L : Lexer D) : Nat := 2 * (L.is.rest.length + (if L.hold then 1 else 0)) + 2

def parseTerm (ps : ParserStyle) : LexM D (Value D) := fun L => parseTermLoop ps (parseBound L) L

/-- A key, its value, and where the key stands. -/
structure Pair (D : Type) where
  key : Text
  val : Value D
  lineNo : Nat
  filename : String

/-- `parse_pair` of a parser whose state is good; `none` is a parser whose state is bad after it. -/
def parsePair (ps : ParserStyle) : LexM D (Option (Pair D)) := do
  let t ← getToken
  if t ≠ .IDENT then pure none
  else do
    let lineNo ← fun L => .ok L.lineNo_ L
    let filename ← fun L => .ok L.filename_ L
    let key ← stringValue
    expect .ASSIGN true
    let val ← parseTerm ps
    pure (some ⟨key, val, lineNo, filename⟩)

end Nanonet
