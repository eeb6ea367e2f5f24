import StackTrace.Settings.Error

/-!
# Sections and layers of settings

A layer of settings names some values and leaves the others open.  It has two sections, either of
which may be missing; every field of a section is optional.

Merging one layer over another keeps, field by field, what the upper one sets and otherwise what the
lower one sets.
-/

namespace StackTrace

/-- The largest capacity of a chunk. -/
def maxChunkSize : Nat := 65535

/-- Checks the capacity of a chunk, which is from 1 to `maxChunkSize`. -/
def checkChunkSize (size : Nat) : Except InvalidValue Unit :=
  if size = 0 ∨ size > maxChunkSize then .error (.chunkSize size) else .ok ()

/-- The settings of trace capture that a layer names. -/
structure BacktraceSection where
  enabled : Option Bool := none
  maxDepth : Option Nat := none
  chunkSize : Option Nat := none
  showHiddenFrames : Option Bool := none
  preallocatedErrors : Option Nat := none
  deriving DecidableEq, Repr

namespace BacktraceSection

/-- Checks the values that are set; a chunk size by `checkChunkSize`. -/
def validate (s : BacktraceSection) : Except InvalidValue Unit :=
  match s.chunkSize with
  | none => .ok ()
  | some size => checkChunkSize size

/-- Lays `upper` over a section. -/
def merge (lower upper : BacktraceSection) : BacktraceSection where
  enabled := upper.enabled.or lower.enabled
  maxDepth := upper.maxDepth.or lower.maxDepth
  chunkSize := upper.chunkSize.or lower.chunkSize
  showHiddenFrames := upper.showHiddenFrames.or lower.showHiddenFrames
  preallocatedErrors := upper.preallocatedErrors.or lower.preallocatedErrors

end BacktraceSection

/-- The settings of the managed heap that a layer names. -/
structure HeapSection where
  limitBytes : Option Nat := none
  deriving DecidableEq, Repr

namespace HeapSection

/-- Checks the values that are set. -/
def validate (s : HeapSection) : Except InvalidValue Unit :=
  if s.limitBytes = some 0 then .error .heapLimit else .ok ()

/-- Lays `upper` over a section. -/
def merge (lower upper : HeapSection) : HeapSection where
  limitBytes := upper.limitBytes.or lower.limitBytes

end HeapSection

/-- What one file sets: the settings of a project, or those of a user. -/
structure Layer where
  backtrace : Option BacktraceSection := none
  heap : Option HeapSection := none
  deriving DecidableEq, Repr

namespace Layer

/-- The layer that sets nothing. -/
def empty : Layer := {}

/-- Checks the values that are set, by `BacktraceSection.validate` first and then by
    `HeapSection.validate`. -/
def validate (l : Layer) : Except InvalidValue Unit := do
  l.backtrace.forM BacktraceSection.validate
  l.heap.forM HeapSection.validate

/-- Lays `upper` over a layer. -/
def merge (lower upper : Layer) : Layer where
  backtrace :=
    match upper.backtrace with
    | none => lower.backtrace
    | some s => some ((lower.backtrace.getD {}).merge s)
  heap :=
    match upper.heap with
    | none => lower.heap
    | some s => some ((lower.heap.getD {}).merge s)

/-- The `BacktraceSection` of a layer, empty if it has none. -/
def backtraceSection (l : Layer) : BacktraceSection := l.backtrace.getD {}

/-- Changes the `BacktraceSection` of a layer, which is created if there is none. -/
def modifyBacktrace (l : Layer) (f : BacktraceSection → BacktraceSection) : Layer :=
  { l with backtrace := some (f l.backtraceSection) }

end Layer

end StackTrace
