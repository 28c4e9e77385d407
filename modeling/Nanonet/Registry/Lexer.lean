import Nanonet.Base.Stream

/-!
# The registry's lexer

`lexer` of `registry.h` and `registry.cpp`: the tokens, the styles, and `get_token`, which returns
the held token if there is one and otherwise scans the stream. Scanning restarts after every
comment (the `goto restart` of the source), here a recursion on a bound that the length of the text
is enough for; `switch` is what follows the first character that is not whitespace.
-/

namespace Nanonet

inductive Token where
  | END | LP | RP | LB | RB | LBRACKET | RBRACKET | ASTERISKS | SLASH | HASH | PERCENT | ASSIGN
  | COMMA | DOUBLE_QUOTE | SINGLE_QUOTE | STRING | IDENT | NUM | NO_TOKEN
  deriving DecidableEq, Repr

/-- `closing_token`: the next enumerator. -/
def closingToken : Token → Token
  | .END => .LP
  | .LP => .RP
  | .RP => .LB
  | .LB => .RB
  | .RB => .LBRACKET
  | .LBRACKET => .RBRACKET
  | .RBRACKET => .ASTERISKS
  | .ASTERISKS => .SLASH
  | .SLASH => .HASH
  | .HASH => .PERCENT
  | .PERCENT => .ASSIGN
  | .ASSIGN => .COMMA
  | .COMMA => .DOUBLE_QUOTE
  | .DOUBLE_QUOTE => .SINGLE_QUOTE
  | .SINGLE_QUOTE => .STRING
  | .STRING => .IDENT
  | .IDENT => .NUM
  | .NUM => .NO_TOKEN
  | .NO_TOKEN => .NO_TOKEN

/-- `token_name_table`; the table ends before `NO_TOKEN`. -/
def tokenName : Token → String
  | .END => "end of file"
  | .LP => "left parenthesis"
  | .RP => "right parenthesis"
  | .LB => "left brace"
  | .RB => "right brace"
  | .LBRACKET => "left bracket"
  | .RBRACKET => "right bracket"
  | .ASTERISKS => "`*'"
  | .SLASH => "`/'"
  | .HASH => "`#'"
  | .PERCENT => "`%'"
  | .ASSIGN => "`='"
  | .COMMA => "comma"
  | .DOUBLE_QUOTE => "double quote"
  | .SINGLE_QUOTE => "single quote"
  | .STRING => "character string"
  | .IDENT => "identifier"
  | .NUM => "number"
  | .NO_TOKEN => ""

/-- `char_token`; `none` is the `default` branch, which throws. -/
def charToken (c : Char) : Option Token :=
  match c with
  | '(' => some .LP
  | ')' => some .RP
  | '{' => some .LB
  | '}' => some .RB
  | '[' => some .LBRACKET
  | ']' => some .RBRACKET
  | '/' => some .SLASH
  | '#' => some .HASH
  | '%' => some .PERCENT
  | ',' => some .COMMA
  | '=' => some .ASSIGN
  | '*' => some .ASTERISKS
  | _ => none

inductive CommentStyle where
  | cComments | hashComments | percentComments
  deriving DecidableEq, Repr

inductive StringQuoteStyle where
  | singleQuote | doubleQuote
  deriving DecidableEq, Repr

structure LexerStyle where
  commentStyle : CommentStyle := .hashComments
  stringQuoteStyle : StringQuoteStyle := .doubleQuote
  deriving DecidableEq, Repr

def LexerStyle.quoteChar (style : LexerStyle) : Char :=
  if style.stringQuoteStyle = .singleQuote then '\'' else '"'

def LexerStyle.commentChar (style : LexerStyle) : Char :=
  if style.commentStyle = .hashComments then '#' else '%'

/-- `struct lexer`, without the state flag that only `set_state` writes. -/
structure Lexer (D : Type) where
  is : IStream
  style : LexerStyle
  currentToken_ : Token
  stringValue_ : Text
  numValue_ : D
  lineNo_ : Nat
  filename_ : String
  hold : Bool
  deriving DecidableEq, Repr

/-- A call on the lexer: it returns or throws, and leaves the lexer changed either way. -/
abbrev LexM (D : Type) := Call (Lexer D)

namespace Lexer

variable {D : Type}

/-- The constructor. -/
def open_ [NumGet D] (is : IStream) (filename : String) (style : LexerStyle) : Lexer D :=
  ⟨is, style, .END, [], NumGet.zero, 1, filename, false⟩

def setStyle (style : LexerStyle) (L : Lexer D) : Lexer D := { L with style := style }

def location (L : Lexer D) : String := L.filename_ ++ ":" ++ toString L.lineNo_ ++ ": "

def currentToken : LexM D Token := fun L => .ok L.currentToken_ L

/-- `string_value()` with its assertion. -/
def stringValue : LexM D Text := fun L =>
  if L.currentToken_ = .STRING ∨ L.currentToken_ = .IDENT then .ok L.stringValue_ L
  else .error (.assertionFailure "current_token() == STRING || current_token() == IDENT") L

def numValue : LexM D D := fun L =>
  if L.currentToken_ = .NUM then .ok L.numValue_ L
  else .error (.assertionFailure "current_token() == NUM") L

def putback (L : Lexer D) : Lexer D := { L with hold := true }

/-- `putback()` as a statement. -/
def unget : LexM D Unit := fun L => .ok () L.putback

/-- `throw std::runtime_error( location() + message )`. -/
def throwHere {α : Type} (message : String) : LexM D α := fun L =>
  .error (.runtimeError (L.location ++ message)) L

/-- `return current_token_ = t`. -/
def return_ (t : Token) : LexM D Token := fun L => .ok t { L with currentToken_ := t }

/-- `return current_token_ = char_token( c )`. -/
def returnChar (c : Char) : LexM D Token := fun L =>
  match charToken c with
  | some t => return_ t L
  | none => .error (.runtimeError ("unknown input character: " ++ c.toString)) L

/-- Munches a comment till the end of the line. -/
def munchLine (restart : LexM D Token) : LexM D Token := fun L =>
  let is := (L.is.getWhile fun c => !isnewline c).2.2
  let L := { L with is := is }
  if L.is.eofbit then return_ .END L else restart { L with lineNo_ := L.lineNo_ + 1 }

/-- The two nested loops of `munch_till_asterisks_slash` on the text of a good stream, with the
line number: an asterisk that a slash does not follow restarts the loop. -/
def munchText : Text → Nat → IStream × Nat
  | [], line => (⟨[], true, true⟩, line)
  | c :: cs, line =>
    if c = '*' then
      match cs with
      | [] => (⟨[], true, false⟩, line)
      | d :: ds => if d = '/' then (⟨ds, false, false⟩, line) else munchText cs line
    else munchText cs (line + (isnewline c).toNat)

def munchTillAsterisksSlash (L : Lexer D) : Lexer D :=
  if L.is.good then
    let (is, line) := munchText L.is.rest L.lineNo_
    { L with is := is, lineNo_ := line }
  else { L with is := { L.is with failbit := true } }

/-- The loop of the quoted string on the text after the opening quote: the value read so far, the
error it ends with if any, and the stream. -/
def stringBody (quote : Char) : Text → Text × Option String × IStream
  | [] => ([], some "unterminated string", ⟨[], true, true⟩)
  | c :: cs =>
    if isnewline c then ([], some "unterminated string", ⟨cs, false, false⟩)
    else if c = quote then ([], none, ⟨cs, false, false⟩)
    else if c = '\\' then
      match cs with
      | [] => ([], some "bad escape sequence", ⟨[], true, true⟩)
      | cc :: ds =>
        if quote ≠ cc ∧ 'n' ≠ cc ∧ '\\' ≠ cc then
          ([], some "bad escape sequence", ⟨ds, false, false⟩)
        else
          let c := if quote = cc then quote else if 'n' = cc then '\n' else '\\'
          (c :: (stringBody quote ds).1, (stringBody quote ds).2)
    else (c :: (stringBody quote cs).1, (stringBody quote cs).2)

/-- A quoted string, after its opening quote. -/
def lexString : LexM D Token := fun L =>
  let (value, error, is) := stringBody L.style.quoteChar L.is.rest
  let L := { L with is := is, stringValue_ := value }
  match error with
  | some message => throwHere message L
  | none => return_ .STRING L

/-- The `/` branch: the start of a comment in some styles. -/
def lexSlash (restart : LexM D Token) : LexM D Token := fun L =>
  match L.is.peek with
  | (none, is) => return_ .SLASH { L with is := is }
  | (some c, is) =>
    let L := { L with is := is }
    if c = '/' then
      if L.style.commentStyle = .hashComments then return_ .SLASH L else munchLine restart L
    else if c = '*' then
      if L.style.commentStyle ≠ .cComments then return_ .ASTERISKS L
      else restart (munchTillAsterisksSlash { L with is := L.is.ignore })
    else throwHere "invalid start of C-style comment" L

/-- A number: its first character is put back for `operator>>`. -/
def lexNumber [NumGet D] (c : Char) : LexM D Token := fun L =>
  match (L.is.putback c).readDouble with
  | (some d, is) => return_ .NUM { L with is := is, numValue_ := d }
  | (none, is) => throwHere "error reading floating point value" { L with is := is }

/-- An identifier: the character that ends it is put back. -/
def lexIdent (c : Char) : LexM D Token := fun L =>
  let (xs, stop, is) := L.is.getWhile fun c => isalnum c || c == '_'
  let is := match stop with
    | some d => is.putback d
    | none => is
  return_ .IDENT { L with is := is, stringValue_ := c :: xs }

/-- What `get_token` does with the first character that is not whitespace. -/
def switch [NumGet D] (restart : LexM D Token) (c : Char) : LexM D Token := fun L =>
  if c = '#' ∨ c = '%' then
    if L.style.commentStyle = .cComments ∨ L.style.commentChar ≠ c then returnChar c L
    else munchLine restart L
  else if c = '/' then lexSlash restart L
  else if c ∈ ['=', '(', ')', '{', '}', '[', ']', ','] then returnChar c L
  else if c = '"' ∨ c = '\'' then
    if L.style.quoteChar ≠ c then returnChar c L else lexString L
  else if isdigit c || c == '.' || c == '+' || c == '-' then lexNumber c L
  else if isalpha c then lexIdent c L
  else throwHere ("bad character in input (" ++ c.toString ++ ")") L

/-- `get_token` from its `restart` label on, where a comment jumps back to `restart`. -/
def scanWith [NumGet D] (restart : LexM D Token) : LexM D Token := fun L =>
  let (spaces, stop, is) := L.is.getWhile isspace
  let L := { L with is := is, lineNo_ := L.lineNo_ + spaces.countP isnewline }
  if L.is.eofbit then return_ .END L
  else
    match stop with
    | none => throwHere "read error" L
    | some c => switch restart c L

/-- `scanWith` with at most `fuel` jumps. -/
def scan [NumGet D] : Nat → LexM D Token
  | 0 => fun L => .error .outOfFuel L
  | fuel + 1 => scanWith (scan fuel)

/-- `get_token()` when no token is held. -/
def read [NumGet D] : LexM D Token := fun L => scan (L.is.rest.length + 1) L

def getToken [NumGet D] : LexM D Token := fun L =>
  if L.hold then .ok L.currentToken_ { L with hold := false } else read L

def peekToken [NumGet D] : LexM D Token := fun L =>
  if L.hold then .ok L.currentToken_ L
  else
    match getToken L with
    | .ok t L => .ok t L.putback
    | .error e L => .error e L

end Lexer

def expect {D : Type} [NumGet D] (t : Token) (read : Bool) : LexM D Unit := do
  let tt ← if read then Lexer.getToken else Lexer.currentToken
  if tt ≠ t then Lexer.throwHere (tokenName t ++ " expected")

end Nanonet
