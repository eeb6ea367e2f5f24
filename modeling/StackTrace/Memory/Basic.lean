import StackTrace.Memory.Heap
import StackTrace.Memory.Safepoint
import StackTrace.Violation

/-!
# Allocation on a thread

An allocation may start a collection, so it is a safepoint: it needs that no unpaused no-safepoint
scope is open on the thread, and looks at the budget only after that.  A failed allocation leaves
the memory as it was.
-/

namespace StackTrace

/-- What an allocation reads and changes: the heap, and the scopes open on the thread. -/
structure Memory where
  heap : Heap
  safepoints : Safepoints
  deriving DecidableEq, Repr

namespace Memory

/-- An unused heap, `Heap.ofLimit`, and a thread without open scopes. -/
def ofLimit (limit : Option Nat) : Memory := ⟨Heap.ofLimit limit, Safepoints.idle⟩

/-- Allocates an object of `payload` bytes. -/
def allocate (m : Memory) (payload : Nat) : Except (Failure OutOfMemory) Reservation × Memory :=
  if m.safepoints.allowed then
    match m.heap.allocate payload with
    | (.ok r, heap) => (.ok r, { m with heap })
    | (.error e, heap) => (.error (.error e), { m with heap })
  else (.error (.violation .safepointInScope), m)

/-- Allocates a `BoxedBool`, whose payload is one byte. -/
def box (m : Memory) (value : Bool) : Except (Failure OutOfMemory) BoxedBool × Memory :=
  match m.allocate 1 with
  | (.ok r, m) => (.ok ⟨value, r⟩, m)
  | (.error e, m) => (.error e, m)

/-- Takes a reservation back with `Heap.release`. -/
def release (m : Memory) (r : Reservation) : Memory := { m with heap := m.heap.release r }

/-- Takes several reservations back with `Heap.releaseAll`. -/
def releaseAll (m : Memory) (rs : List Reservation) : Memory :=
  { m with heap := m.heap.releaseAll rs }

/-- Runs `action` while scope `v` is lifted. -/
def paused {α : Type} (m : Memory) (v : Verifier) (action : Memory → α × Memory) : α × Memory :=
  let (v, safepoints) := m.safepoints.pause v
  let (result, m) := action { m with safepoints }
  let (_, safepoints) := m.safepoints.resume v
  (result, { m with safepoints })

end Memory

end StackTrace
