import StackTrace.DebugInfo.Error
import StackTrace.Memory.Heap

/-!
# Errors of capturing and reading traces
-/

namespace StackTrace

/-- What can go wrong with a trace. -/
inductive TraceError where
  | outOfMemory (e : OutOfMemory)
  /-- The stack holds a compiled frame whose debug info cannot be read. -/
  | debugInfo (e : DebugInfo.Error)
  /-- A trace of `depth` frames was asked to fill `length` elements. -/
  | depthMismatch (depth length : Nat)
  | missingBacktrace
  /-- A frame of `method` has a bytecode index that no location can hold. -/
  | bciOutOfRange (method : String) (bci : Int)
  | invalidConfig (reason : String)
  deriving DecidableEq, Repr

/-- The wording of an error. -/
def TraceError.message : TraceError → String
  | outOfMemory e => s!"backtrace allocation failed: {e.message}"
  | debugInfo e => s!"corrupt compiled frame: {e.message}"
  | depthMismatch depth length =>
    s!"stack trace depth {depth} does not match {length} output elements"
  | missingBacktrace => "throwable has no backtrace"
  | bciOutOfRange method bci => s!"bci {bci} of {method} does not fit a stored location"
  | invalidConfig reason => s!"invalid runtime configuration: {reason}"

end StackTrace
