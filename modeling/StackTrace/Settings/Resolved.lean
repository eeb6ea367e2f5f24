import StackTrace.Settings.Section

/-!
# Settings in force

The settings that the runtime works with have a value for everything.  They start from the defaults,
and each layer applied to them replaces what it sets.
-/

namespace StackTrace

/-- How traces are captured. -/
structure BacktraceConfig where
  /-- Whether traces are captured at all. -/
  enabled : Bool := true
  /-- The most frames that a capture records; 0 for all. -/
  maxDepth : Nat := 1024
  /-- The capacity of a chunk. -/
  chunkSize : Nat := 32
  /-- Whether hidden frames are recorded. -/
  showHiddenFrames : Bool := false
  /-- How many out-of-memory errors are prepared in advance. -/
  preallocatedErrors : Nat := 4
  deriving DecidableEq, Repr

/-- Replaces what a `BacktraceSection` sets. -/
def BacktraceConfig.apply (c : BacktraceConfig) (s : BacktraceSection) : BacktraceConfig where
  enabled := s.enabled.getD c.enabled
  maxDepth := s.maxDepth.getD c.maxDepth
  chunkSize := s.chunkSize.getD c.chunkSize
  showHiddenFrames := s.showHiddenFrames.getD c.showHiddenFrames
  preallocatedErrors := s.preallocatedErrors.getD c.preallocatedErrors

/-- The bounds of the managed heap. -/
structure HeapConfig where
  /-- The most bytes charged at once; no bound if absent. -/
  limitBytes : Option Nat := none
  deriving DecidableEq, Repr

/-- Replaces what a `HeapSection` sets. -/
def HeapConfig.apply (c : HeapConfig) (s : HeapSection) : HeapConfig where
  limitBytes := s.limitBytes.or c.limitBytes

/-- The settings of a runtime. -/
structure RuntimeConfig where
  backtrace : BacktraceConfig := {}
  heap : HeapConfig := {}
  deriving DecidableEq, Repr

namespace RuntimeConfig

/-- Settings with small chunks, which make chunk boundaries easy to reach. -/
def forTesting : RuntimeConfig := { backtrace := { chunkSize := 4, preallocatedErrors := 2 } }

/-- Checks settings that no layer was the source of.  Only `checkChunkSize` is asked. -/
def validate (c : RuntimeConfig) : Except InvalidValue Unit := checkChunkSize c.backtrace.chunkSize

/-- Applies the sections that a layer has, with `BacktraceConfig.apply` and `HeapConfig.apply`. -/
def apply (c : RuntimeConfig) (l : Layer) : RuntimeConfig where
  backtrace := l.backtrace.elim c.backtrace c.backtrace.apply
  heap := l.heap.elim c.heap c.heap.apply

end RuntimeConfig

/-- Settings as they were loaded: the layers, and where the project was found. -/
structure Config where
  project : Layer
  global : Layer
  projectRoot : Option String

namespace Config

/-- The settings in force: the defaults, under the `global` layer, under the `project` layer. -/
def runtime (c : Config) : RuntimeConfig :=
  (RuntimeConfig.apply {} c.global).apply c.project

/-- Whether a project was found, that is, there is a `projectRoot`. -/
def isProject (c : Config) : Bool := c.projectRoot.isSome

end Config

end StackTrace
