import Mathlib.Data.List.Basic

/-!
# `auto_resource` and `increment_sentry`

One object of `auto_resource< R , T >` holds one handle. The functions below are its members; a call
of `T::initialize` or `T::dispose` acts on the state behind the handles and is put on record. A world
is any number of objects and what was done through them. The reader of a world also sees which
handles were handed to an object, which the code does not keep.
-/

namespace Nanonet

/-- The traits class `T`. The state `σ` is what the handles stand for. -/
structure ResourceTraits (R σ : Type*) where
  /-- `T::invalid` -/
  invalid : R
  /-- `T::valid` -/
  valid : R → Bool
  /-- `T::initialize` -/
  init : R → σ → σ
  /-- `T::dispose` -/
  dispose : R → σ → σ
  valid_invalid : valid invalid = false

/-- The state behind the handles, and the handles that `T::initialize` and `T::dispose` were called
with. -/
structure Calls (R σ : Type*) where
  state : σ
  initialized : List R
  disposed : List R

@[ext] structure AutoResource (R : Type*) where
  h : R
deriving DecidableEq

variable {R σ : Type*} (T : ResourceTraits R σ)

namespace ResourceTraits

def callInit (h : R) (c : Calls R σ) : Calls R σ :=
  ⟨T.init h c.state, c.initialized ++ [h], c.disposed⟩

def callDispose (h : R) (c : Calls R σ) : Calls R σ :=
  ⟨T.dispose h c.state, c.initialized, c.disposed ++ [h]⟩

end ResourceTraits

namespace AutoResource

def default : AutoResource R := ⟨T.invalid⟩

def construct (h_in : R) (c : Calls R σ) : AutoResource R × Calls R σ := (⟨h_in⟩, T.callInit h_in c)

/-- `release()`: the handle and what is left of the object. -/
def release (a : AutoResource R) : R × AutoResource R := (a.h, ⟨T.invalid⟩)

/-- `auto_resource( auto_resource&& other )`: the new object and what is left of `other`. -/
def moveConstruct (other : AutoResource R) : AutoResource R × AutoResource R :=
  let ret := release T other
  (⟨ret.1⟩, ret.2)

def valid (a : AutoResource R) : Bool := T.valid a.h

def dispose (a : AutoResource R) (c : Calls R σ) : Calls R σ :=
  if T.valid a.h then T.callDispose a.h c else c

def reset (a : AutoResource R) (hh : R) (c : Calls R σ) : AutoResource R × Calls R σ :=
  (⟨hh⟩, a.dispose T c)

def destroy (a : AutoResource R) (c : Calls R σ) : Calls R σ := a.dispose T c

end AutoResource

/-! ### Any number of objects -/

structure ResourceWorld (R σ : Type*) where
  /-- The objects in the order of their construction, `none` once destroyed. -/
  objects : List (Option (AutoResource R))
  calls : Calls R σ
  /-- The handles that were passed to a constructor or to `reset`. -/
  handed : List R

namespace ResourceWorld

def start (s : σ) : ResourceWorld R σ := ⟨[], ⟨s, [], []⟩, []⟩

def object (w : ResourceWorld R σ) (i : Nat) : Option (AutoResource R) := w.objects[i]?.join

/-- The number of objects that hold `h`. -/
def holders [DecidableEq R] (w : ResourceWorld R σ) (h : R) : Nat := w.objects.count (some ⟨h⟩)

end ResourceWorld

/-- The operations of a program on its objects, which it names by their positions. -/
inductive ResourceOp (R : Type*)
  | defaultConstruct
  | construct (h_in : R)
  | moveConstruct (other : Nat)
  | moveAssign (lhs rhs : Nat)
  | reset (i : Nat) (hh : R)
  | destroy (i : Nat)
deriving DecidableEq

namespace ResourceOp

/-- One operation; there is none on an object that was destroyed. -/
def step (w : ResourceWorld R σ) : ResourceOp R → Option (ResourceWorld R σ)
  | defaultConstruct => some { w with objects := w.objects ++ [some (.default T)] }
  | construct h_in =>
    let made := AutoResource.construct T h_in w.calls
    some ⟨w.objects ++ [some made.1], made.2, w.handed ++ [h_in]⟩
  | moveConstruct other => (w.object other).map fun a =>
    let made := a.moveConstruct T
    { w with objects := w.objects.set other (some made.2) ++ [some made.1] }
  | moveAssign lhs rhs => (w.object lhs).bind fun _ => (w.object rhs).map fun a =>
    -- `h = rhs.release()`: where the two are one object, the assignment comes last
    let ret := a.release T
    { w with objects := (w.objects.set rhs (some ret.2)).set lhs (some ⟨ret.1⟩) }
  | reset i hh => (w.object i).map fun a =>
    let left := a.reset T hh w.calls
    ⟨w.objects.set i (some left.1), left.2, w.handed ++ [hh]⟩
  | destroy i => (w.object i).map fun a =>
    { w with objects := w.objects.set i none, calls := a.destroy T w.calls }

/-- The operations of a program, one after the other. -/
def run (w : ResourceWorld R σ) (ops : List (ResourceOp R)) : Option (ResourceWorld R σ) :=
  ops.foldlM (step T) w

end ResourceOp

/-- `auto_resource_traits< int >`: the file descriptors of a process, which are open or closed. -/
def fdTraits : ResourceTraits Int (Int → Bool) where
  invalid := -1
  valid h := 0 ≤ h
  init _ files := files
  dispose h files := fun k => if k = h then false else files k
  valid_invalid := rfl

/-! ### `increment_sentry` -/

/-- `auto_resource_traits_increment_sentry`: a handle is a pointer to one of the counters. -/
def incrementSentryTraits (Counter : Type*) [DecidableEq Counter] :
    ResourceTraits (Option Counter) (Counter → Int) where
  invalid := none
  valid pi := pi.isSome
  init pi count := fun k => if pi = some k then count k + 1 else count k
  dispose pi count := fun k => if pi = some k then count k - 1 else count k
  valid_invalid := rfl

/-- What a program can do with an `increment_sentry`, which has neither a default constructor nor
`reset` and is constructed from a counter. -/
def SentryOp {Counter : Type*} : ResourceOp (Option Counter) → Prop
  | .construct pi => pi.isSome = true
  | .moveConstruct _ | .moveAssign _ _ | .destroy _ => True
  | .defaultConstruct | .reset _ _ => False

end Nanonet
