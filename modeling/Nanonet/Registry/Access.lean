import Nanonet.Registry.Store

/-!
# Reading the registry

`convert`, `get`, `get_default` and the `check_` functions of `registry.h` and `registry.cpp`. A
stored `std::any` is cast to exactly one of the types the functions ask for, so the types the parser
stores decide what they return (`convertList_iff`).
-/

namespace Nanonet

variable {D : Type}

inductive StdAny (D : Type) where
  | double (d : D)
  | string (s : Text)
  | vectorAny (v : List (Value D))
  | expression (head : Text) (tail : List (Value D))
  | vectorDouble (v : List D)
  | vectorString (v : List Text)

/-- The `std::any` in which the parser stores a value. -/
def Value.any : Value D → StdAny D
  | .num d => .double d
  | .string s => .string s
  | .list v => .vectorAny v
  | .expression head tail => .expression head tail

/-- A type that values are converted to: `hr_type< T >()` and `std::any_cast< T >( &a )`. -/
class Held (D T : Type) where
  hrType : String
  anyCast : StdAny D → Option T

instance : Held D D where
  hrType := "number"
  anyCast
    | .double d => some d
    | _ => none

instance : Held D Text where
  hrType := "string"
  anyCast
    | .string s => some s
    | _ => none

instance : Held D (List (Value D)) where
  hrType := "list"
  anyCast
    | .vectorAny v => some v
    | _ => none

instance : Held D (List D) where
  hrType := "list of double"
  anyCast
    | .vectorDouble v => some v
    | _ => none

instance : Held D (List Text) where
  hrType := "list of strings"
  anyCast
    | .vectorString v => some v
    | _ => none

class ValueInit (T : Type) where
  init : T

instance [NumGet D] : ValueInit D := ⟨NumGet.zero⟩

instance : ValueInit Text := ⟨[]⟩

def Exn.what : Exn → String
  | .runtimeError what => what
  | .assertionFailure what => what
  | .outOfFuel => ""

/-- `throw std::runtime_error( context + e.what() )` where `e` is caught as a `std::runtime_error`,
which an `assertion_failure` is as well. -/
def Exn.within (context : String) : Exn → Exn
  | .outOfFuel => .outOfFuel
  | e => .runtimeError (context ++ e.what)

/-- What `throw_should_have` throws. -/
def shouldHave (n : Int) (thing : String) : Exn :=
  .runtimeError ("should have " ++ toString n ++ " " ++ thing)

def convert (T : Type) [Held D T] (a : StdAny D) : Except Exn T :=
  match Held.anyCast a with
  | some x => .ok x
  | none => .error (.runtimeError ("should be a " ++ Held.hrType D T))

/-- `ret.resize( n )`. -/
def resize {T : Type} (n : Nat) (init : T) (ret : List T) : List T :=
  ret.take n ++ List.replicate (n - ret.length) init

/-- The loop of the list `convert` from element `i` on, into `ret`. -/
def convertElements {T : Type} [Held D T] : Nat → List (Value D) → Call (List T) Unit
  | _, [] => pure ()
  | i, a :: as => fun ret =>
    match convert T a.any with
    | .ok x => convertElements (i + 1) as (ret.set i x)
    | .error e => .error (e.within ("element " ++ toString (i + 1))) ret

/-- `convert( a , ret , n )` for a list. -/
def convertList {T : Type} [Held D T] [ValueInit T] (a : StdAny D) (n : Int) :
    Call (List T) Unit := fun ret =>
  if -1 ≤ n then
    match convert (List (Value D)) a with
    | .error e => .error e ret
    | .ok v =>
      if 0 ≤ n ∧ (v.length : Int) ≠ n then .error (shouldHave n "element(s)") ret
      else convertElements 0 v (resize v.length (ValueInit.init) ret)
  else .error (.assertionFailure "n >= -1") ret

namespace Registry

def isDefined (reg : Registry D) (key : Text) : Bool := (reg.kvMap key).isSome

def getAny (reg : Registry D) (key : Text) : Except Exn (StdAny D) :=
  match reg.kvMap key with
  | none => .error (.runtimeError ("key " ++ String.ofList key ++ ": not defined"))
  | some m => .ok m.value.any

def keyDefinedAt (reg : Registry D) (key : Text) : Except Exn String := do
  let at_ ← reg.definedAt key
  pure ("key " ++ String.ofList key ++ " " ++ at_)

def get (reg : Registry D) (T : Type) [Held D T] (key : Text) : Except Exn T := do
  let a ← reg.getAny key
  match convert T a with
  | .ok x => pure x
  | .error e =>
    let at_ ← reg.definedAt key
    throw (e.within (String.ofList key ++ " " ++ at_ ++ ": "))

def getDefaultInternal (reg : Registry D) {T : Type} [Held D T] (key : Text) (default_value : T) :
    Except Exn T :=
  if reg.isDefined key then reg.get T key else pure default_value

/-- What the `check_vector_` functions have in common: the value is converted into an empty output,
and an exception of the conversion gets the key in front. -/
def checkConverted {T : Type} (reg : Registry D) (key : Text)
    (conversion : StdAny D → Call (List T) Unit) : Except Exn (List T) := do
  let a ← reg.getAny key
  match conversion a [] with
  | .ok _ ret => pure ret
  | .error e _ =>
    let at_ ← reg.keyDefinedAt key
    throw (e.within (at_ ++ ": "))

/-- `check_vector_double` and `check_vector_string`, which differ in the element type. -/
def checkVector (reg : Registry D) (T : Type) [Held D T] [ValueInit T] (key : Text) (n : Int) :
    Except Exn (List T) :=
  reg.checkConverted key fun a => convertList a n

def checkVectorDouble [NumGet D] (reg : Registry D) (key : Text) (n : Int := -1) :
    Except Exn (List D) :=
  reg.checkVector D key n

def checkVectorString (reg : Registry D) (key : Text) (n : Int := -1) : Except Exn (List Text) :=
  reg.checkVector Text key n

/-- `get_default( key , std::vector< double > )`. -/
def getDefaultVectorDouble (reg : Registry D) (key : Text) (default_value : List D) :
    Except Exn (List D) :=
  reg.getDefaultInternal key default_value

/-- `get_default( key , std::vector< std::string > )`. -/
def getDefaultVectorString (reg : Registry D) (key : Text) (default_value : List Text) :
    Except Exn (List Text) :=
  reg.getDefaultInternal key default_value

end Registry

/-! ### The list conversion -/

section mapM

variable {α β : Type} {f : α → Option β}

theorem mapM_cons_bind (a : α) (as : List α) :
    (a :: as).mapM f = (f a).bind fun x => (as.mapM f).map fun xs => x :: xs := by
  simp only [List.mapM_cons, Option.pure_def, Option.bind_eq_bind, Option.map_eq_bind]
  rfl

theorem mapM_eq_some_iff {g : β → α} (hf : ∀ a x, f a = some x ↔ a = g x) {as : List α}
    {xs : List β} : as.mapM f = some xs ↔ as = xs.map g := by
  induction as generalizing xs with
  | nil => simp [eq_comm]
  | cons a as ih =>
    rw [mapM_cons_bind]
    cases xs with
    | nil => simp [Option.bind_eq_some_iff]
    | cons x xs => simp [Option.bind_eq_some_iff, hf, ih]

end mapM

section conversion

variable {T : Type} [Held D T]

/-- The elements as values of the type that is asked for. -/
def castAll (T : Type) [Held D T] (v : List (Value D)) : Option (List T) :=
  v.mapM fun a => Held.anyCast a.any

omit [Held D T] in
theorem take_set_succ {i : Nat} {ret : List T} (hi : i < ret.length) (x : T) :
    (ret.set i x).take (i + 1) = ret.take i ++ [x] := by
  rw [List.take_add_one, List.take_set_of_le (Nat.le_refl i)]
  simp [hi]

theorem convertElements_spec (v : List (Value D)) (i : Nat) (ret : List T)
    (h : ret.length = i + v.length) :
    match castAll T v with
    | some xs => convertElements i v ret = .ok () (ret.take i ++ xs)
    | none => ∃ what ret', convertElements i v ret = .error (.runtimeError what) ret' := by
  induction v generalizing i ret with
  | nil =>
    have htake : ret.take i = ret := List.take_of_length_le (by simp [h])
    simp [castAll, convertElements, htake]
  | cons a as ih =>
    simp only [List.length_cons] at h
    rw [castAll, mapM_cons_bind]
    change match (Held.anyCast a.any).bind fun x => (castAll T as).map fun xs => x :: xs with
      | some xs => _
      | none => _
    cases hcast : (Held.anyCast a.any : Option T) with
    | none =>
      simp only [convertElements, convert, hcast]
      exact ⟨_, ret, rfl⟩
    | some x =>
      have hstep : convertElements i (a :: as) ret = convertElements (i + 1) as (ret.set i x) := by
        simp [convertElements, convert, hcast]
      have has := ih (i + 1) (ret.set i x) (by simp; omega)
      rw [hstep]
      cases hcasts : castAll T as with
      | none =>
        rw [hcasts] at has
        exact has
      | some xs =>
        rw [hcasts] at has
        simp only [Option.bind_some, Option.map_some]
        rw [has, take_set_succ (by omega), List.append_assoc]
        rfl

/-- The list that a value is, if it has the number of elements asked for. -/
def listOf (T : Type) [Held D T] (a : StdAny D) (n : Int) : Option (List T) :=
  match a with
  | .vectorAny v => if 0 ≤ n ∧ (v.length : Int) ≠ n then none else castAll T v
  | _ => none

theorem length_resize (n : Nat) (init : T) (ret : List T) : (resize n init ret).length = n := by
  simp [resize]
  omega

/-- The conversion returns the list whatever the output held, and throws where there is none. -/
theorem convertList_spec [ValueInit T] {a : StdAny D} {n : Int} (hn : -1 ≤ n) (ret : List T) :
    match listOf T a n with
    | some xs => convertList a n ret = .ok () xs
    | none => ∃ what ret', convertList a n ret = .error (.runtimeError what) ret' := by
  unfold convertList
  rw [if_pos hn]
  cases a with
  | vectorAny v =>
    simp only [listOf, convert, Held.anyCast]
    split_ifs with hlen
    · exact ⟨_, _, rfl⟩
    · have hspec := convertElements_spec (T := T) v 0
        (resize v.length ValueInit.init ret) (by rw [length_resize, Nat.zero_add])
      simpa using hspec
  | _ => exact ⟨_, _, rfl⟩

omit [Held D T] in
theorem checkConverted_defined {reg : Registry D} {key : Text} {m : Mapped D}
    (h : reg.kvMap key = some m) (conversion : StdAny D → Call (List T) Unit) :
    reg.checkConverted key conversion = match conversion m.value.any [] with
      | .ok _ ret => .ok ret
      | .error e _ => .error (e.within ("key " ++ String.ofList key ++ " " ++ m.definedAt ++ ": ")) := by
  have hgetAny : reg.getAny key = .ok m.value.any := by simp [Registry.getAny, h]
  have hdefined : reg.keyDefinedAt key =
      .ok ("key " ++ String.ofList key ++ " " ++ m.definedAt) := by
    simp [Registry.keyDefinedAt, Registry.definedAt, h, bind, Except.bind, pure, Except.pure]
  simp only [Registry.checkConverted, hgetAny, bind, Except.bind]
  cases conversion m.value.any [] with
  | ok u ret => rfl
  | error e ret =>
    simp only [hdefined]
    rfl

end conversion

/-! ### The two ways to read a list -/

/-- `get_default` returns the default where the key is undefined; elsewhere it returns what the check
returns, and throws where the check throws. -/
def AgreesWith {T : Type} (defined : Bool) (default_value : List T)
    (got checked : Except Exn (List T)) : Prop :=
  if defined then
    (∀ xs, got = .ok xs ↔ checked = .ok xs) ∧ ((∃ e, got = .error e) ↔ ∃ e, checked = .error e)
  else got = .ok default_value

theorem getDefaultInternal_spec {T : Type} [Held D (List T)]
    (hcast : ∀ v : Value D, (Held.anyCast v.any : Option (List T)) = none) (reg : Registry D)
    (key : Text) (default_value : List T) :
    match reg.kvMap key with
    | none => reg.getDefaultInternal key default_value = .ok default_value
    | some _ => ∃ e, reg.getDefaultInternal key default_value = .error e := by
  cases h : reg.kvMap key with
  | none =>
    simp only [Registry.getDefaultInternal, Registry.isDefined, h]
    rfl
  | some m =>
    have hgetAny : reg.getAny key = .ok m.value.any := by simp [Registry.getAny, h]
    have hdefinedAt : reg.definedAt key = .ok m.definedAt := by simp [Registry.definedAt, h]
    simp only [Registry.getDefaultInternal, Registry.isDefined, h, Option.isSome_some, if_true,
      Registry.get, hgetAny, bind, Except.bind, convert, hcast, hdefinedAt]
    exact ⟨_, rfl⟩

theorem agreesWith_iff {T : Type} [Held D T] [ValueInit T] [Held D (List T)]
    (hcast : ∀ v : Value D, (Held.anyCast v.any : Option (List T)) = none) (reg : Registry D)
    (key : Text) (default_value : List T) :
    AgreesWith (reg.isDefined key) default_value (reg.getDefaultInternal key default_value)
        (reg.checkVector T key (-1)) ↔
      ∀ m, reg.kvMap key = some m → listOf T m.value.any (-1) = none := by
  have hget := getDefaultInternal_spec hcast reg key default_value
  cases h : reg.kvMap key with
  | none =>
    rw [h] at hget
    exact iff_of_true (by simpa [AgreesWith, Registry.isDefined, h] using hget) (by simp)
  | some m =>
    rw [h] at hget
    obtain ⟨e, hget⟩ := hget
    have hcheck : reg.checkVector T key (-1) = _ :=
      checkConverted_defined h fun a => convertList a (-1)
    have hspec := convertList_spec (T := T) (a := m.value.any) (n := -1) (Int.le_refl _) []
    cases hlist : listOf T m.value.any (-1) with
    | none =>
      rw [hlist] at hspec
      obtain ⟨what, ret', hconvert⟩ := hspec
      rw [hconvert] at hcheck
      exact iff_of_true (by simp [AgreesWith, Registry.isDefined, h, hget, hcheck])
        (by rintro _ ⟨⟩; exact hlist)
    | some xs =>
      rw [hlist] at hspec
      dsimp only at hspec
      rw [hspec] at hcheck
      refine iff_of_false (by simp [AgreesWith, Registry.isDefined, h, hget, hcheck]) fun hnot => ?_
      rw [hnot m rfl] at hlist
      cases hlist

theorem listOf_value_eq_some {T : Type} [Held D T] {ofElement : T → Value D}
    (hcast : ∀ (a : Value D) (x : T), Held.anyCast a.any = some x ↔ a = ofElement x) {a : Value D}
    {xs : List T} : listOf T a.any (-1) = some xs ↔ a = .list (xs.map ofElement) := by
  cases a with
  | list v =>
    have hcasts : listOf T (Value.list v).any (-1) = castAll T v := by simp [listOf, Value.any]
    rw [hcasts, castAll, mapM_eq_some_iff hcast, Value.list.injEq]
  | _ => simp [listOf, Value.any]

theorem listOf_value_eq_none {T : Type} [Held D T] {ofElement : T → Value D}
    (hcast : ∀ (a : Value D) (x : T), Held.anyCast a.any = some x ↔ a = ofElement x) (a : Value D) :
    listOf T a.any (-1) = none ↔ ¬ ∃ xs : List T, a = .list (xs.map ofElement) := by
  rw [Option.eq_none_iff_forall_ne_some, not_exists]
  exact forall_congr' fun xs => not_congr (listOf_value_eq_some hcast)

theorem anyCast_num (a : Value D) (d : D) : Held.anyCast a.any = some d ↔ a = .num d := by
  cases a <;> simp [Held.anyCast, Value.any]

theorem anyCast_string (a : Value D) (s : Text) :
    Held.anyCast a.any = some s ↔ a = .string s := by
  cases a <;> simp [Held.anyCast, Value.any]

/-- **The two ways to read a list.** `get_default` of a list agrees with the check for the same
element type iff the key is undefined or its value is no list of that type: where it is one, the
check returns it and `get_default` throws. -/
theorem getDefault_agrees_iff [NumGet D] (reg : Registry D) (key : Text) (ds : List D)
    (ss : List Text) :
    (AgreesWith (reg.isDefined key) ds (reg.getDefaultVectorDouble key ds)
        (reg.checkVectorDouble key) ↔
      ∀ m, reg.kvMap key = some m → ¬ ∃ xs : List D, m.value = .list (xs.map .num)) ∧
    (AgreesWith (reg.isDefined key) ss (reg.getDefaultVectorString key ss)
        (reg.checkVectorString key) ↔
      ∀ m, reg.kvMap key = some m → ¬ ∃ xs : List Text, m.value = .list (xs.map .string)) := by
  constructor
  · refine (agreesWith_iff (fun v => by cases v <;> rfl) reg key ds).trans ?_
    exact forall₂_congr fun m _ => listOf_value_eq_none anyCast_num m.value
  · refine (agreesWith_iff (fun v => by cases v <;> rfl) reg key ss).trans ?_
    exact forall₂_congr fun m _ => listOf_value_eq_none anyCast_string m.value

/-- `a={1}`: the check returns the list, and `get_default` throws. -/
theorem getDefault_throws_on_list :
    ∃ reg', readFrom (D := ℕ) (some ['a', '=', '{', '1', '}']) "f" {} {} true .empty = .ok () reg' ∧
      reg'.checkVectorDouble ['a'] = .ok [1] ∧
      reg'.getDefaultVectorDouble ['a'] [] =
        .error (.runtimeError "a (line 1 in f): should be a list of double") := by
  have hrun : (match readFrom (D := ℕ) (some ['a', '=', '{', '1', '}']) "f" {} {} true .empty with
      | .ok _ reg' => decide (reg'.checkVectorDouble ['a'] = .ok [1] ∧
          reg'.getDefaultVectorDouble ['a'] [] =
            .error (.runtimeError "a (line 1 in f): should be a list of double"))
      | .error _ _ => false) = true := by decide +kernel
  split at hrun
  · next reg' hread => exact ⟨reg', hread, of_decide_eq_true hrun⟩
  · cases hrun

end Nanonet
