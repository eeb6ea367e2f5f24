import StackTrace.Stack.Frame

/-!
# Walking a stack

A walk reads a stack from the top as the sequence of managed activations on it.  An interpreted
frame is one activation, a native wrapper is one at index 0, and other compiled code is the chain of
scopes recorded for its call site, innermost first.  Entries and stubs are none.  A frame whose
debug info cannot be read ends the walk with an error.

`Frame.activations` reads one frame, `Walk.ofStack` a stack.  What a walk then *visits* leaves out
every activation whose class is no longer alive.
-/

namespace StackTrace

/-- How an activation was found. -/
inductive ActivationKind where
  | interpreted
  /-- The physical method of compiled code. -/
  | compiledPhysical
  /-- A method inlined into compiled code. -/
  | compiledInlined
  /-- A native method, found by its wrapper. -/
  | nativeEntry
  deriving DecidableEq, Repr

/-- One managed activation. -/
structure Activation where
  method : Method
  bci : Int
  kind : ActivationKind
  deriving DecidableEq, Repr

/-- What a walk comes across: activations, and the error that ended it, if one did. -/
structure Walk where
  activations : List Activation
  error : Option DebugInfo.Error

/-- A `Scope` as an activation. -/
def Scope.activation (s : Scope) : Activation :=
  ⟨s.method, s.bci, if s.isPhysical then .compiledPhysical else .compiledInlined⟩

/-- The activations of one frame, those of compiled code by `scopesFrom`. -/
def Frame.activations : Frame → Walk
  | .entry | .stub _ => ⟨[], none⟩
  | .interpreted method bci => ⟨[⟨method, bci, .interpreted⟩], none⟩
  | .compiled code pc =>
    if code.nativeWrapper then ⟨[⟨code.method, 0, .nativeEntry⟩], none⟩
    else
      match code.pcDescAt pc with
      | none => ⟨[], some (.missingPcDesc pc)⟩
      | some desc =>
        let (scopes, error) := code.scopesFrom desc.scopeOffset
        ⟨scopes.map Scope.activation, error⟩

namespace Walk

/-- The walk that goes on with the frames of `stack` after `found`, latest activation first. -/
def extend (found : List Activation) : List Frame → Walk
  | [] => ⟨found.reverse, none⟩
  | f :: rest =>
    let w := f.activations
    let found := w.activations.reverse ++ found
    match w.error with
    | some e => ⟨found.reverse, some e⟩
    | none => extend found rest

/-- The walk of a stack, topmost frame first: the `Frame.activations` of its frames put together by
    `extend`. -/
def ofStack (stack : List Frame) : Walk := extend [] stack

/-- The part of a walk whose classes are alive. -/
def visited (w : Walk) (alive : ClassId → Bool) : List Activation :=
  w.activations.filter fun a => alive a.method.holder

end Walk

end StackTrace
