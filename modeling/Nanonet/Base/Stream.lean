import Mathlib.Logic.Function.Basic
import Mathlib.Data.List.Basic
import Mathlib.Data.List.TakeWhile
import Mathlib.Order.Basic
import Mathlib.Order.Nat

/-!
# Exceptions, characters and input streams

What the standard library gives the rest of the program: the exceptions it throws, the character
classes of the C locale, and `std::istream` over a finite text. A stream is the text that is left
together with `eofbit` and `failbit`; every read goes through the sentry, so a stream that is not
good reads nothing and sets `failbit`.

The loops `while( is.get( c ) && p( c ) ) { .. }` of the source are all one function, `getWhile`.
-/

namespace Nanonet

/-- `std::string` and character sequences. -/
abbrev Text := List Char

/-- A C string: the characters before the first NUL. -/
def cString (s : Text) : Text := s.takeWhile (· != '\x00')

theorem nul_notMem_cString (s : Text) : '\x00' ∉ cString s := by
  intro h
  simpa using List.mem_takeWhile_imp h

theorem cString_eq_self {s : Text} (h : '\x00' ∉ s) : cString s = s := by
  rw [cString, List.takeWhile_eq_self_iff]
  exact fun c hc => by simpa using ne_of_mem_of_not_mem hc h

/-- What the modelled code throws. `outOfFuel` is the recursion bound of the model: no exception of
the source, and the theorems show that it never comes out of an entry point. -/
inductive Exn where
  | runtimeError (what : String)
  | assertionFailure (what : String)
  | outOfFuel
  deriving DecidableEq, Repr

def Exn.IsRuntime (e : Exn) : Prop := ∃ what, e = .runtimeError what

/-- A call on a state: it returns or throws, and leaves the state changed either way. -/
abbrev Call (σ : Type) := EStateM Exn σ

namespace Call

variable {ε σ α β : Type} {x : EStateM ε σ α} {f : α → EStateM ε σ β} {s s' : σ}

theorem bind_ok {a : α} (h : x s = .ok a s') : (x >>= f) s = f a s' := by
  simp only [bind, EStateM.bind, h]

theorem bind_error {e : ε} (h : x s = .error e s') : (x >>= f) s = .error e s' := by
  simp only [bind, EStateM.bind, h]

theorem of_bind_ok {b : β} {s'' : σ} (h : (x >>= f) s = .ok b s'') :
    ∃ a s', x s = .ok a s' ∧ f a s' = .ok b s'' := by
  cases hx : x s with
  | ok a s' => exact ⟨a, s', rfl, by rwa [bind_ok hx] at h⟩
  | error e s' => simp [bind_error hx] at h

theorem of_bind_error {e : ε} {s'' : σ} (h : (x >>= f) s = .error e s'') :
    x s = .error e s'' ∨ ∃ a s', x s = .ok a s' ∧ f a s' = .error e s'' := by
  cases hx : x s with
  | ok a s' => exact .inr ⟨a, s', rfl, by rwa [bind_ok hx] at h⟩
  | error e' s' =>
    rw [bind_error hx] at h
    cases h
    exact .inl rfl

@[simp] theorem pure_apply (a : α) (s : σ) : (pure a : EStateM ε σ α) s = .ok a s := rfl

end Call

/-- How a call that converts numbers ends. -/
inductive Evaluated (α : Type) where
  | returned (a : α)
  | thrown (e : Exn)
  | undefined
  deriving DecidableEq

instance : Monad Evaluated where
  pure := .returned
  bind
    | .returned a, f => f a
    | .thrown e, _ => .thrown e
    | .undefined, _ => .undefined

/-- `always_assert( condition )`; a failed `assert` is modelled in the same way. -/
def alwaysAssert (condition : Prop) [Decidable condition] (text : String) : Evaluated Unit :=
  if condition then .returned () else .thrown (.assertionFailure text)

@[simp] theorem Evaluated.returned_bind {α β : Type} (a : α) (f : α → Evaluated β) :
    (Evaluated.returned a >>= f) = f a := rfl

theorem alwaysAssert_of {condition : Prop} [Decidable condition] (h : condition) (text : String) :
    alwaysAssert condition text = .returned () := if_pos h

/-- The state a call leaves, whether it returns or throws. -/
def stateAfter {ε σ α : Type} : EStateM.Result ε σ α → σ
  | .ok _ s => s
  | .error _ s => s

theorem Call.stateAfter_bind {ε σ α β : Type} {R : σ → σ → Prop} {x : EStateM ε σ α}
    {f : α → EStateM ε σ β} {s : σ} (htrans : ∀ {a b c}, R a b → R b c → R a c)
    (hx : R s (stateAfter (x s)))
    (hf : ∀ a s', x s = .ok a s' → R s' (stateAfter (f a s'))) :
    R s (stateAfter ((x >>= f) s)) := by
  cases h : x s with
  | ok a s' =>
    rw [Call.bind_ok h]
    rw [h] at hx
    exact htrans hx (hf a s' h)
  | error e s' =>
    rw [Call.bind_error h]
    rwa [h] at hx

/-! ### Character classes of the C locale -/

def isspace (c : Char) : Bool :=
  c == ' ' || c == '\t' || c == '\n' || c == '\x0b' || c == '\x0c' || c == '\r'

def isdigit (c : Char) : Bool := c.isDigit

def isalpha (c : Char) : Bool := c.isAlpha

def isalnum (c : Char) : Bool := c.isAlphanum

def isnewline (c : Char) : Bool := '\n' == c

theorem all_not_newline {body : Text} (hbody : '\n' ∉ body) :
    ∀ c ∈ body, (!isnewline c) = true := by
  intro c hc
  have hne : c ≠ '\n' := ne_of_mem_of_not_mem hc hbody
  simp [isnewline, Ne.symm hne]

/-! ### `std::istream` -/

/-- An input stream over a finite text. -/
structure IStream where
  rest : Text
  eofbit : Bool
  failbit : Bool
  deriving DecidableEq, Repr

namespace IStream

def ofText (text : Text) : IStream := ⟨text, false, false⟩

def good (is : IStream) : Bool := !is.eofbit && !is.failbit

/-- `is.get( c )`: the sentry, then one character; at the end of the text both flags are set. -/
def get (is : IStream) : Option Char × IStream :=
  if is.good then
    match is.rest with
    | [] => (none, ⟨[], true, true⟩)
    | c :: cs => (some c, ⟨cs, false, false⟩)
  else (none, { is with failbit := true })

/-- `is.peek()`: `none` is `eof()`, and meeting the end of the text sets `eofbit`. -/
def peek (is : IStream) : Option Char × IStream :=
  if is.good then
    match is.rest with
    | [] => (none, ⟨[], true, false⟩)
    | c :: cs => (some c, ⟨c :: cs, false, false⟩)
  else (none, { is with failbit := true })

/-- `is.ignore()`: drops one character. -/
def ignore (is : IStream) : IStream :=
  if is.good then
    match is.rest with
    | [] => ⟨[], true, false⟩
    | _ :: cs => ⟨cs, false, false⟩
  else { is with failbit := true }

/-- `is.putback( c )` of the character just read: `eofbit` is cleared before the sentry. -/
def putback (is : IStream) (c : Char) : IStream :=
  if is.failbit then { is with eofbit := false } else ⟨c :: is.rest, false, false⟩

/-- The characters `while( is.get( c ) && p( c ) )` accepts, the one it stops at, and what is
left. -/
def span (p : Char → Bool) : Text → Text × Option Char × Text
  | [] => ([], none, [])
  | c :: cs =>
    if p c then
      let (xs, stop, rest) := span p cs
      (c :: xs, stop, rest)
    else ([], some c, cs)

/-- `while( is.get( c ) && p( c ) ) { .. }`: the accepted characters, the character the loop
stopped at (`none` if `get` failed), and the stream after the loop. -/
def getWhile (p : Char → Bool) (is : IStream) : Text × Option Char × IStream :=
  if is.good then
    match span p is.rest with
    | (xs, none, _) => (xs, none, ⟨[], true, true⟩)
    | (xs, some c, rest) => (xs, some c, ⟨rest, false, false⟩)
  else ([], none, { is with failbit := true })

/-- `std::getline( is, line )`: `none` is the stream converted to `false`. -/
def getline (is : IStream) : Option Text × IStream :=
  match is.getWhile (fun c => !isnewline c) with
  | (xs, some _, is) => (some xs, is)
  | ([], none, is) => (none, is)
  | (x :: xs, none, is) => (some (x :: xs), { is with failbit := false })

/-- `is >> word`: skips whitespace, then reads up to whitespace or the end of the text. -/
def readWord (is : IStream) : Option Text × IStream :=
  if is.good then
    match is.rest.dropWhile isspace with
    | [] => (none, ⟨[], true, true⟩)
    | c :: cs =>
      let rest := (c :: cs).dropWhile (fun c => !isspace c)
      (some ((c :: cs).takeWhile fun c => !isspace c), ⟨rest, rest.isEmpty, false⟩)
  else (none, { is with failbit := true })

end IStream

/-- `operator>>( std::istream& , double& )` after the whitespace is skipped: the value, or `none`
where it sets `failbit`, and the text that is left. The conversion is the library's own; the code
relies on a successful one to have read at least a character. `zero` is the literal `0`. -/
class NumGet (D : Type) where
  zero : D
  extract : Text → Option D × Text
  extract_suffix : ∀ {text rest : Text} {d : D}, extract text = (some d, rest) →
    rest <:+ text ∧ rest.length < text.length

namespace IStream

def readDouble {D : Type} [NumGet D] (is : IStream) : Option D × IStream :=
  if is.good then
    match is.rest.dropWhile isspace with
    | [] => (none, ⟨[], true, true⟩)
    | c :: cs =>
      match NumGet.extract (c :: cs) with
      | (some d, rest) => (some d, ⟨rest, rest.isEmpty, false⟩)
      | (none, rest) => (none, ⟨rest, rest.isEmpty, true⟩)
  else (none, { is with failbit := true })

/-! ### The loop -/

theorem getWhile_eq (p : Char → Bool) (is : IStream) :
    is.getWhile p = match is.get with
      | (none, is') => ([], none, is')
      | (some c, is') =>
        if p c then (c :: (is'.getWhile p).1, (is'.getWhile p).2) else ([], some c, is') := by
  unfold getWhile get
  rcases is with ⟨_ | ⟨c, cs⟩, _ | _, _ | _⟩ <;> simp [good, span]
  rcases hsp : span p cs with ⟨xs, _ | d, rest⟩ <;> cases p c <;> simp

@[simp] theorem good_mk (rest : Text) : (⟨rest, false, false⟩ : IStream).good = true := rfl

theorem span_append {p : Char → Bool} {xs : Text} (hxs : ∀ c ∈ xs, p c = true) (rest : Text) :
    span p (xs ++ rest) = (xs ++ (span p rest).1, (span p rest).2) := by
  induction xs with
  | nil => rfl
  | cons x xs ih =>
    have hx : p x = true := hxs x (by simp)
    simp [span, hx, ih fun c hc => hxs c (by simp [hc])]

/-- The loop splits the text, and stops at the first character that it does not accept. -/
theorem span_spec {p : Char → Bool} {text xs rest : Text} {stop : Option Char}
    (h : span p text = (xs, stop, rest)) :
    text = xs ++ (stop.toList ++ rest) ∧ (∀ c ∈ xs, p c = true) ∧ (∀ c ∈ stop, p c = false) ∧
      (stop = none → rest = []) := by
  induction text generalizing xs stop rest with
  | nil =>
    obtain ⟨rfl, rfl, rfl⟩ : xs = [] ∧ stop = none ∧ rest = [] := by simpa [span, eq_comm] using h
    simp
  | cons c cs ih =>
    rw [span] at h
    split at h
    · next hc =>
      rcases hsp : span p cs with ⟨ys, stop', rest'⟩
      rw [hsp] at h
      obtain ⟨rfl, rfl, rfl⟩ : xs = c :: ys ∧ stop = stop' ∧ rest = rest' := by
        simpa [eq_comm] using h
      obtain ⟨rfl, hys, hstop, hrest⟩ := ih hsp
      exact ⟨rfl, by simpa [hc] using hys, hstop, hrest⟩
    · next hc =>
      obtain ⟨rfl, rfl, rfl⟩ : xs = [] ∧ stop = some c ∧ rest = cs := by simpa [eq_comm] using h
      simpa using hc

theorem span_length {p : Char → Bool} {text xs rest : Text} {stop : Option Char}
    (h : span p text = (xs, stop, rest)) :
    rest.length + xs.length + (if stop.isSome then 1 else 0) = text.length := by
  induction text generalizing xs stop rest with
  | nil =>
    obtain ⟨rfl, rfl, rfl⟩ : xs = [] ∧ stop = none ∧ rest = [] := by simpa [span, eq_comm] using h
    rfl
  | cons c cs ih =>
    rw [span] at h
    split at h
    · rcases hsp : span p cs with ⟨ys, stop', rest'⟩
      rw [hsp] at h
      obtain ⟨rfl, rfl, rfl⟩ : xs = c :: ys ∧ stop = stop' ∧ rest = rest' := by
        simpa [eq_comm] using h
      have := ih hsp
      simp only [List.length_cons]
      omega
    · obtain ⟨rfl, rfl, rfl⟩ : xs = [] ∧ stop = some c ∧ rest = cs := by simpa [eq_comm] using h
      rfl

/-- The loop never gives characters back, and stopping at a character takes that one too. -/
theorem getWhile_length {p : Char → Bool} {is is' : IStream} {xs : Text} {stop : Option Char}
    (h : is.getWhile p = (xs, stop, is')) :
    is'.rest.length + (if stop.isSome then 1 else 0) ≤ is.rest.length := by
  unfold getWhile at h
  split at h
  · rcases hsp : span p is.rest with ⟨ys, stop', rest⟩
    have hlen := span_length hsp
    rw [hsp] at h
    cases stop' with
    | none =>
      obtain ⟨rfl, rfl, rfl⟩ : ys = xs ∧ none = stop ∧ _ = is' := by simpa using h
      simp
    | some c =>
      obtain ⟨rfl, rfl, rfl⟩ : ys = xs ∧ some c = stop ∧ _ = is' := by simpa using h
      simp only [Option.isSome_some, if_true] at hlen ⊢
      omega
  · obtain ⟨rfl, rfl, rfl⟩ : [] = xs ∧ none = stop ∧ _ = is' := by simpa using h
    simp

theorem getWhile_le (p : Char → Bool) (is : IStream) :
    (is.getWhile p).2.2.rest.length ≤ is.rest.length := by
  rcases h : is.getWhile p with ⟨xs, stop, is'⟩
  exact (Nat.le_add_right _ _).trans (getWhile_length h)

/-- The accepted characters, the one the loop stops at, and the rest of a good stream. -/
theorem getWhile_append {p : Char → Bool} {xs : Text} (hxs : ∀ c ∈ xs, p c = true) {c : Char}
    (hc : p c = false) (rest : Text) :
    (⟨xs ++ c :: rest, false, false⟩ : IStream).getWhile p
      = (xs, some c, ⟨rest, false, false⟩) := by
  simp [getWhile, span_append hxs, span, hc]

theorem getWhile_all {p : Char → Bool} {xs : Text} (hxs : ∀ c ∈ xs, p c = true) :
    (⟨xs, false, false⟩ : IStream).getWhile p = (xs, none, ⟨[], true, true⟩) := by
  have h := span_append hxs []
  rw [List.append_nil] at h
  simp [getWhile, h, span]

end IStream

/-! ### Numbers without sign, point and exponent -/

def readDigits (text : Text) : Option ℕ × Text :=
  if text.takeWhile isdigit = [] then (none, text)
  else (some ((text.takeWhile isdigit).foldl (fun n c => 10 * n + (c.toNat - '0'.toNat)) 0),
    text.dropWhile isdigit)

instance : NumGet ℕ where
  zero := 0
  extract := readDigits
  extract_suffix := by
    intro text rest d h
    unfold readDigits at h
    split_ifs at h with hdigits
    · simp at h
    · obtain ⟨-, rfl⟩ : _ = d ∧ text.dropWhile isdigit = rest := by simpa using h
      have hlen := congrArg List.length (List.takeWhile_append_dropWhile (p := isdigit) (l := text))
      have hpos := List.length_pos_iff.2 hdigits
      rw [List.length_append] at hlen
      exact ⟨List.dropWhile_suffix _, by omega⟩

end Nanonet
