/-!
# Broken promises

Some calls promise more than their types say: that a bytecode index fits a stored location, that
nobody allocates inside a no-safepoint scope, that a buffer is not larger than any memory.  A call
whose promise is broken stops with a `Violation`.  That is not an error its caller is meant to
handle, so it is kept apart from the errors of each operation by `Failure`.
-/

namespace StackTrace

/-- A promise that the caller of an operation did not keep. -/
inductive Violation where
  /-- A location was packed from a bytecode index outside `-1 … 65535`. -/
  | bciDoesNotFit (bci : Int)
  /-- A store was opened with chunks of capacity zero. -/
  | emptyChunk
  /-- A class ran out of method ordinals. -/
  | tooManyMethods
  /-- Memory was asked for inside a no-safepoint scope. -/
  | safepointInScope
  /-- A buffer was asked for that is larger than any memory. -/
  | bufferTooLarge
  deriving DecidableEq, Repr

namespace Violation

/-- The text that a violation stops with. -/
def message : Violation → String
  | bciDoesNotFit bci => s!"bci {bci} does not fit a location"
  | emptyChunk => "backtrace chunks need room for a frame"
  | tooManyMethods => "too many methods in one class"
  | safepointInScope => "possible safepoint reached inside a no-safepoint scope"
  | bufferTooLarge => "capacity overflow"

end Violation

/-- Why an operation did not finish: an error of its own kind, or a broken promise. -/
inductive Failure (ε : Type) where
  | error (e : ε)
  | violation (v : Violation)
  deriving DecidableEq, Repr

/-- The same `Failure` with its error read as an error of another kind. -/
def Failure.mapError {ε δ : Type} (f : ε → δ) : Failure ε → Failure δ
  | .error e => .error (f e)
  | .violation v => .violation v

end StackTrace
