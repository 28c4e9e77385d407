import Nanonet.Registry.Parser

/-!
# The registry

`registry` of `registry.h` and `registry.cpp`: the key/value map, `add_any`, and the two `read_from`
functions. A registry and the lexer it reads from are changed by every pair that is added, also when
a later one throws, so both are the state of the calls.
-/

namespace Nanonet

open Lexer

variable {D : Type}

structure Mapped (D : Type) where
  value : Value D
  definedAt : String

/-- `struct registry`: `kv_map`, and the file last read. -/
structure Registry (D : Type) where
  kvMap : Text → Option (Mapped D)
  filename : String

def definedAtMsg (lineNo : Nat) (filename : String) : String :=
  "(line " ++ toString lineNo ++ " in " ++ filename ++ ")"

/-- What `read_from` stores for a pair. -/
def Pair.mapped (b : Pair D) : Mapped D := ⟨b.val, definedAtMsg b.lineNo b.filename⟩

namespace Registry

def empty : Registry D := ⟨fun _ => none, ""⟩

def definedAt (reg : Registry D) (key : Text) : Except Exn String :=
  match reg.kvMap key with
  | none => .error (.runtimeError ("key " ++ String.ofList key ++ ": not defined"))
  | some m => .ok m.definedAt

def checkKey (reg : Registry D) (key : Text) : Except Exn Unit :=
  if (reg.kvMap key).isSome then do
    let at_ ← reg.definedAt key
    throw (.runtimeError (String.ofList key ++ " redefined " ++ at_))
  else pure ()

/-- `kv_map[ key ] = ..`, both members. -/
def define (reg : Registry D) (key : Text) (m : Mapped D) : Registry D :=
  { reg with kvMap := Function.update reg.kvMap key (some m) }

def addAny (reg : Registry D) (key : Text) (value : Value D) (definedAt : String)
    (throwOnRedefinition : Bool) : Except Exn (Registry D) := do
  if throwOnRedefinition then reg.checkKey key
  pure (reg.define key ⟨value, definedAt⟩)

end Registry

/-- A call that reads from a lexer into a registry. -/
abbrev RegM (D : Type) := Call (Lexer D × Registry D)

def onLexer {α : Type} (x : LexM D α) : RegM D α := fun (L, reg) =>
  match x L with
  | .ok a L => .ok a (L, reg)
  | .error e L => .error e (L, reg)

/-- `add_any` of a pair, with the location of the lexer before the text of its exception. -/
def addPair (throwOnRedefinition : Bool) (b : Pair D) : RegM D Unit := fun (L, reg) =>
  match reg.addAny b.key b.val (definedAtMsg b.lineNo b.filename) throwOnRedefinition with
  | .ok reg => .ok () (L, reg)
  | .error (.runtimeError what) => .error (.runtimeError (L.location ++ what)) (L, reg)
  | .error e => .error e (L, reg)

variable {throwing : Bool}

theorem addPair_ok {reg : Registry D} {b : Pair D} (h : throwing = true → reg.kvMap b.key = none)
    (L : Lexer D) : addPair throwing b (L, reg) = .ok () (L, reg.define b.key b.mapped) := by
  cases throwing with
  | false => rfl
  | true =>
    have hcheck : reg.checkKey b.key = .ok () := by
      simp [Registry.checkKey, h rfl, pure, Except.pure]
    simp only [addPair, Registry.addAny, hcheck, bind, Except.bind, pure, Except.pure, if_true]
    rfl

theorem addPair_error {reg : Registry D} {b : Pair D} (h : throwing = true)
    (hkey : reg.kvMap b.key ≠ none) (L : Lexer D) :
    ∃ what, addPair throwing b (L, reg) = .error (.runtimeError what) (L, reg) := by
  subst h
  obtain ⟨m, hm⟩ := Option.ne_none_iff_exists'.1 hkey
  refine ⟨L.location ++ (String.ofList b.key ++ " redefined " ++ m.definedAt), ?_⟩
  simp [addPair, Registry.addAny, Registry.checkKey, Registry.definedAt, hm, bind, Except.bind,
    throw, throwThe, MonadExceptOf.throw]

theorem addPair_cases (throwing : Bool) (b : Pair D) (L : Lexer D) (reg : Registry D) :
    addPair throwing b (L, reg) = .ok () (L, reg.define b.key b.mapped) ∨
      ∃ what, addPair throwing b (L, reg) = .error (.runtimeError what) (L, reg) := by
  by_cases hthrowing : throwing = true
  · by_cases hkey : reg.kvMap b.key = none
    · exact .inl (addPair_ok (fun _ => hkey) L)
    · exact .inr (addPair_error hthrowing hkey L)
  · exact .inl (addPair_ok (fun h => absurd h hthrowing) L)

theorem onLexer_ok {α : Type} {x : LexM D α} {L : Lexer D} {reg : Registry D} {a : α}
    {s : Lexer D × Registry D} (h : onLexer x (L, reg) = .ok a s) :
    x L = .ok a s.1 ∧ s.2 = reg := by
  unfold onLexer at h
  dsimp only at h
  cases hx : x L with
  | ok a' L' =>
    rw [hx] at h
    cases h
    exact ⟨rfl, rfl⟩
  | error e L' =>
    rw [hx] at h
    cases h

variable [NumGet D]

/-- `while( p.parse_pair( .. ) ) { .. }`. -/
def readLoop (ps : ParserStyle) (throwOnRedefinition : Bool) : Nat → RegM D Unit
  | 0 => fun s => .error .outOfFuel s
  | fuel + 1 => do
    match ← onLexer (parsePair ps) with
    | none => pure ()
    | some b => do
      addPair throwOnRedefinition b
      readLoop ps throwOnRedefinition fuel

def readFromLexer (ls : LexerStyle) (ps : ParserStyle) (throwOnRedefinition : Bool) :
    RegM D Unit := do
  onLexer fun L => .ok () (L.setStyle ls)
  fun (L, reg) => readLoop ps throwOnRedefinition (parseBound L) (L, reg)
  onLexer unget

/-- `read_from` of a named file; `file` is the text of the file if it can be opened. -/
def readFrom (file : Option Text) (filename_ : String) (ls : LexerStyle) (ps : ParserStyle)
    (throwOnRedefinition : Bool) : EStateM Exn (Registry D) Unit := fun reg =>
  match file with
  | none => .error (.runtimeError ("could not open: " ++ filename_)) reg
  | some text =>
    match (do readFromLexer ls ps throwOnRedefinition; onLexer (expect .END true) : RegM D Unit)
        (open_ (.ofText text) filename_ {}, reg) with
    | .error e (_, reg) => .error e reg
    | .ok _ (_, reg) => .ok () { reg with filename := filename_ }

end Nanonet
