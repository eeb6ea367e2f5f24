import StackTrace.Symbol

/-!
# Methods

A method belongs to one version of its class and never changes.  Its class, that version and its place
there are part of its value, so two methods that agree in all else still differ.  Its *ordinal* is the
number under which stored frames name it; redefinition passes ordinals on to methods of the same name
and signature.  Its *line table* lists where the code of source lines begins.
-/

namespace StackTrace

/-- A class, by the order in which classes were defined. -/
structure ClassId where
  index : Nat
  deriving DecidableEq, Repr, Hashable

/-- The code of source line `line` begins at bytecode index `bci`. -/
structure LineEntry where
  bci : Nat
  line : Nat
  deriving DecidableEq, Repr

/-- What kind of method it is. -/
structure MethodFlags where
  /-- Implemented outside managed code. -/
  native : Bool := false
  /-- An implementation detail that traces leave out. -/
  hidden : Bool := false
  static : Bool := false
  deriving DecidableEq, Repr

/-- A method as a class definition describes it. -/
structure MethodSpec where
  name : String
  signature : String := "()V"
  flags : MethodFlags := {}
  codeSize : Nat := 1
  lines : List LineEntry := []
  deriving DecidableEq, Repr

/-- Adds a line entry; `codeSize` grows to cover it. -/
def MethodSpec.withLine (spec : MethodSpec) (bci line : Nat) : MethodSpec :=
  { spec with lines := spec.lines ++ [⟨bci, line⟩], codeSize := max spec.codeSize (bci + 1) }

/-- The largest code that a class registry accepts, in bytes. -/
def maxCodeSize : Nat := 65536

/-- A loaded method. -/
structure Method where
  /-- The declaring class. -/
  holder : ClassId
  /-- The class version that the method belongs to. -/
  generation : Nat
  /-- The place of the method in that version. -/
  place : Nat
  ordinal : Nat
  name : Symbol
  signature : Symbol
  flags : MethodFlags
  codeSize : Nat
  lines : List LineEntry
  deriving DecidableEq, Repr

/-- The line number of a frame whose source line is not known. -/
def unknownLine : Int := -1

/-- The line number of a frame of a native method. -/
def nativeLine : Int := -2

namespace Method

/-- Whether the method has a line table. -/
def hasLineTable (m : Method) : Bool := !m.lines.isEmpty

/-- The entry of a line table that covers index `bci` best among those before it: the largest start
    wins, and of equal starts the one listed last.  `best` is the winner so far. -/
def nearestBefore (bci : Nat) (best : Option LineEntry) (entry : LineEntry) : Option LineEntry :=
  if entry.bci < bci && (best.map (·.bci)).getD 0 ≤ entry.bci then some entry else best

/-- The source line at a bytecode index: the first entry that starts exactly there, else the nearest
    one before it.  A negative index counts as the start of the code. -/
def lineAt (m : Method) (bci : Int) : Int :=
  let bci := bci.toNat
  if m.codeSize ≤ bci then unknownLine
  else
    match m.lines.find? (·.bci == bci) with
    | some entry => entry.line
    | none =>
      match m.lines.foldl (nearestBefore bci) none with
      | some entry => entry.line
      | none => unknownLine

/-- The line number that a frame of the method reports: `nativeLine`, or its `lineAt` the bytecode
    index. -/
def lineNumber (m : Method) (bci : Int) : Int :=
  if m.flags.native then nativeLine else m.lineAt bci

end Method

end StackTrace
