import StackTrace.Memory.Buffer
import StackTrace.Program.Liveness
import StackTrace.Trace.Element
import StackTrace.Trace.Error
import StackTrace.Trace.Replay

/-!
# Throwables

A throwable is a raised condition with the chain of conditions that caused it, nearest first.  Each
of them owns its class and its trace; `depth` counts the frames of the trace.

`elements` shows a trace frame by frame, `topMethod?` is the method that was running when the trace
was captured, and `printed` is the text for a log: header and frames of the throwable, then of each
cause in turn.  Printing ends at the first condition that has no trace.
-/

namespace StackTrace

/-- A raised condition, without what caused it. -/
structure Condition where
  cls : ClassId
  message : Option String
  trace : Option Store
  depth : Nat
  /-- Whether the runtime prepared it; then its trace is filled in place. -/
  preallocated : Bool

namespace Condition

/-- Whether a capture records the stack for the condition.  One that is `preallocated` keeps the store
    that it was set up with. -/
def isFillable (c : Condition) : Bool := !c.preallocated

/-- The classes that a condition keeps alive: its own, and the `Store.owners` of its trace. -/
def owners (c : Condition) : List ClassId := c.cls :: (c.trace.map Store.owners).getD []

/-- What a condition has charged to the heap, the `Store.reservations` of its trace. -/
def reservations (c : Condition) : List Reservation := (c.trace.map Store.reservations).getD []

/-- The line that announces a condition. -/
def text (p : Program) (c : Condition) : String :=
  let name := ((p.get? c.cls).map Class.externalName).getD ""
  match c.message with
  | none => name
  | some message => name ++ ": " ++ message

/-- The `Store.frames` of the trace, none without a trace. -/
def frames (c : Condition) : List StoredFrame := (c.trace.map Store.frames).getD []

/-- The frames of the trace as `StackTraceElement.ofFrame` shows them. -/
def elements (p : Program) (c : Condition) : List StackTraceElement :=
  c.frames.map (StackTraceElement.ofFrame p)

end Condition

/-- A condition and what caused it. -/
structure Throwable where
  head : Condition
  causes : List Condition

namespace Throwable

/-- A newly raised condition. -/
def new (cls : ClassId) (message : Option String) : Throwable :=
  ⟨{ cls, message, trace := none, depth := 0, preallocated := false }, []⟩

/-- A condition that the runtime prepares, which is `preallocated`. -/
def prepared (cls : ClassId) : Throwable :=
  ⟨{ cls, message := none, trace := none, depth := 0, preallocated := true }, []⟩

/-- All conditions, outermost first. -/
def chain (t : Throwable) : List Condition := t.head :: t.causes

/-- Changes the condition itself. -/
def modifyHead (t : Throwable) (f : Condition → Condition) : Throwable :=
  { t with head := f t.head }

/-- Replaces what caused the condition by the `chain` of another. -/
def withCause (t cause : Throwable) : Throwable := { t with causes := cause.chain }

/-- The `Condition.owners` along the chain, which the throwable keeps alive. -/
def owners (t : Throwable) : List ClassId := t.chain.flatMap Condition.owners

/-- The `Condition.reservations` along the chain. -/
def reservations (t : Throwable) : List Reservation := t.chain.flatMap Condition.reservations

/-- Publishes a finished trace, in place of an earlier one, which is given back. -/
def setTrace (t : Throwable) (s : Store) (depth : Nat) (m : Memory) : Throwable × Memory :=
  (t.modifyHead ({ · with trace := some s, depth }), m.releaseAll t.head.reservations)

/-- Gives the trace back, which frees its `reservations`. -/
def clearTrace (t : Throwable) (m : Memory) : Throwable × Memory :=
  (t.modifyHead ({ · with trace := none, depth := 0 }), m.releaseAll t.head.reservations)

/-- Takes the trace out. -/
def takeTrace (t : Throwable) : Option Store × Throwable :=
  (t.head.trace, t.modifyHead ({ · with trace := none, depth := 0 }))

/-- The `Condition.text` of the throwable itself. -/
def text (p : Program) (t : Throwable) : String := t.head.text p

/-- The `Condition.elements` of the throwable itself; none without a trace. -/
def elements (p : Program) (t : Throwable) : List StackTraceElement := t.head.elements p

/-- Replaces the elements of a buffer by those that `ofFrame` gives the frames of a trace, as long as
    there are frames. -/
def fillBuffer (p : Program) : List StoredFrame → List StackTraceElement → List StackTraceElement
  | f :: frames, _ :: buffer => StackTraceElement.ofFrame p f :: fillBuffer p frames buffer
  | _, buffer => buffer

/-- Shows the trace in a buffer with `fillBuffer`; the buffer has to have as many elements as the trace
    has frames. -/
def fillElements (p : Program) (t : Throwable) (buffer : List StackTraceElement) :
    Except TraceError Unit × List StackTraceElement :=
  match t.head.trace with
  | none => (.error .missingBacktrace, buffer)
  | some s =>
    let mismatch := TraceError.depthMismatch t.head.depth buffer.length
    if buffer.length ≠ t.head.depth then (.error mismatch, buffer)
    else
      let frames := s.frames
      (if frames.length < buffer.length then .error mismatch else .ok (), fillBuffer p frames buffer)

/-- The bytes of one element in a buffer. -/
def elementBytes : Nat := 104

/-- A new buffer of empty elements, which `Buffer.setAside` may refuse. -/
def newElements (length : Nat) : Except Violation (List StackTraceElement) :=
  match Buffer.setAside elementBytes length with
  | .error v => .error v
  | .ok () => .ok (List.replicate length {})

/-- The method that a stored frame was recorded from, if its version is still kept, by
    `methodWithOrdinal`. -/
def resolve? (p : Program) (f : StoredFrame) : Option Method :=
  (p.get? f.holder).bind fun c => c.methodWithOrdinal f.ordinal f.location.version

/-- The method that `resolve?` finds for a stored frame, if the frame is live. -/
def liveMethod? (p : Program) (f : StoredFrame) : Option Method :=
  (resolve? p f).filter (versionMatches ·.generation f.location.version)

/-- The `liveMethod?` and bytecode index of the innermost frame; none if the innermost frame of the
    stack was hidden or has been redefined. -/
def topMethod? (p : Program) (t : Throwable) : Option (Method × Int) :=
  match t.head.trace with
  | none => none
  | some s =>
    if s.hasHiddenTop then none
    else
      match (Cursor.start s).next.1 with
      | none => none
      | some f => (liveMethod? p f).map (·, f.location.bci)

/-- The line for a frame, with the `text` of its element. -/
def frameLine (e : StackTraceElement) : String := "\tat " ++ e.text ++ "\n"

/-- The line in place of the frames of a condition that has no trace. -/
def noTraceLine : String := "\t<<no stack trace available>>\n"

/-- The text for conditions, outermost first; `lead` comes before the first one's header. -/
def printChain (p : Program) (lead : String) : List Condition → String
  | [] => ""
  | c :: causes =>
    let header := lead ++ c.text p ++ "\n"
    match c.trace with
    | none => header ++ noTraceLine
    | some _ =>
      header ++ String.join ((c.elements p).map frameLine) ++ printChain p "Caused by: " causes

/-- The text of a throwable for a log, by `printChain`. -/
def printed (p : Program) (t : Throwable) : String := printChain p "" t.chain

/-- The `frameLine` of a method that is running; its frame counts as redefined if its class is gone. -/
def printMethod (p : Program) (alive : ClassId → Bool) (m : Method) (bci : Int) : String :=
  match StackTraceElement.ofMethod p alive m bci with
  | some e => frameLine e
  | none => "\tat " ++ p.externalName alive m ++ "(Redefined)\n"

end Throwable

end StackTrace
