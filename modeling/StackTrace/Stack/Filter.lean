import StackTrace.Program.Liveness

/-!
# Which activations a capture records

The first activations of a fresh capture are the machinery that raises the exception: calls of
`fillInStackTrace`, then the chain of constructors, as far as they belong to the class of the
throwable or a superclass of it.  Each of the two checks is switched off for good by the first
activation that fails it.  After them, hidden methods are left out unless the settings show them.
-/

namespace StackTrace

/-- What becomes of one activation. -/
inductive FilterDecision where
  | record
  | skipFillInStackTrace
  | skipConstructor
  | skipHidden
  deriving DecidableEq, Repr

/-- What the decisions of one capture depend on. -/
structure FilterPolicy where
  program : Program
  names : WellKnownNames
  alive : ClassId → Bool
  /-- The class of the throwable. -/
  throwableClass : ClassId
  showHidden : Bool

/-- Which of the two checks are still on. -/
structure FrameFilter where
  skipFillIn : Bool
  skipConstructors : Bool
  deriving DecidableEq, Repr

namespace FilterPolicy

/-- Whether a method belongs to the class of the throwable or a superclass, and is not gone. -/
def inHierarchy (p : FilterPolicy) (m : Method) : Bool :=
  p.alive m.holder && p.program.isSubclass p.throwableClass m.holder

/-- Whether a method is the capture routine (`WellKnownNames.fillInStackTrace`) of the throwable, by
    `inHierarchy`. -/
def isFillIn (p : FilterPolicy) (m : Method) : Bool :=
  m.name.sameText p.names.fillInStackTrace && p.inHierarchy m

/-- Whether a method is a constructor of the throwable, by `inHierarchy`. -/
def isConstructor (p : FilterPolicy) (m : Method) : Bool :=
  m.name.sameText p.names.constructor && p.inHierarchy m

end FilterPolicy

namespace FrameFilter

/-- Both checks are on. -/
def start : FrameFilter := ⟨true, true⟩

/-- Decides about one activation by `isFillIn` and `isConstructor`, as far as these checks are on, and
    by whether the method is hidden. -/
def decide (p : FilterPolicy) (f : FrameFilter) (m : Method) : FilterDecision × FrameFilter :=
  if f.skipFillIn && p.isFillIn m then (.skipFillInStackTrace, f)
  else if f.skipConstructors && p.isConstructor m then
    (.skipConstructor, { f with skipFillIn := false })
  else
    (if m.flags.hidden && !p.showHidden then .skipHidden else .record, ⟨false, false⟩)

/-- Decides about activations one after the other with `decide`. -/
def decideAll (p : FilterPolicy) (f : FrameFilter) : List Method → List FilterDecision
  | [] => []
  | m :: rest =>
    let (d, f) := f.decide p m
    d :: f.decideAll p rest

end FrameFilter

end StackTrace
