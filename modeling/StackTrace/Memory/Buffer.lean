import StackTrace.Violation

/-!
# Buffers

A buffer is set aside as a whole before anything is put into it, and apart from the heap that traces
are charged to.  All that matters of it here is that one of more than `Buffer.maxBytes` bytes is
refused.
-/

namespace StackTrace.Buffer

/-- The most bytes that a buffer may have, `2 ^ 63 - 1`. -/
def maxBytes : Nat := 9223372036854775807

/-- Sets aside a buffer of `count` slots. -/
def setAside (slotBytes count : Nat) : Except Violation Unit :=
  if slotBytes * count ≤ maxBytes then .ok () else .error .bufferTooLarge

end StackTrace.Buffer
