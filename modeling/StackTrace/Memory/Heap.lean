/-!
# The managed heap as a budget

Chunks of stored frames and boxed markers live on the managed heap.  All that matters of it here is
how many bytes are charged: an allocation charges its payload and an object header, and fails when
that would pass the limit; giving a reservation back returns its charge.

Sizes are 64-bit words.  A charge saturates at the largest word and a release wraps below zero, so
on a heap without a limit a saturated charge is not undone exactly.
-/

namespace StackTrace

/-- The largest size, `2 ^ 64 - 1`. -/
def maxWord : Nat := 18446744073709551615

/-- Addition that stops at `maxWord`, the largest word. -/
def saturatingAdd (a b : Nat) : Nat := min (a + b) maxWord

/-- A refused allocation: the bytes asked for and the bytes that were left. -/
structure OutOfMemory where
  requested : Nat
  available : Nat
  deriving DecidableEq, Repr

/-- The wording of a refusal. -/
def OutOfMemory.message (e : OutOfMemory) : String :=
  s!"out of memory: requested {e.requested} bytes, {e.available} available"

/-- Charged bytes, owned by whatever holds the reservation. -/
structure Reservation where
  bytes : Nat
  deriving DecidableEq, Repr

/-- A boolean on the heap. -/
structure BoxedBool where
  value : Bool
  reservation : Reservation
  deriving DecidableEq, Repr

/-- The bytes charged for the header of every object. -/
def objectHeaderBytes : Nat := 16

/-- The bytes charged for an object with `payload` bytes of its own. -/
def objectBytes (payload : Nat) : Nat := saturatingAdd payload objectHeaderBytes

/-- The state of the budget. -/
structure Heap where
  /-- The most that may be charged at once; no bound if absent. -/
  limit : Option Nat
  /-- The bytes charged now. -/
  used : Nat
  /-- The number of successful allocations ever made. -/
  allocations : Nat
  deriving DecidableEq, Repr

namespace Heap

/-- A heap under `limit` on which nothing has been allocated. -/
def ofLimit (limit : Option Nat) : Heap := ⟨limit, 0, 0⟩

/-- The bytes that can still be charged, `limit` less `used`, if the heap is bounded. -/
def available (h : Heap) : Option Nat := h.limit.map (· - h.used)

/-- Whether so many bytes may be charged at once: no more than the `limit`, if there is one. -/
def admits (h : Heap) (charge : Nat) : Bool := h.limit.all (charge ≤ ·)

/-- Charges an object of `payload` bytes.  A refused charge changes nothing. -/
def allocate (h : Heap) (payload : Nat) : Except OutOfMemory Reservation × Heap :=
  let bytes := objectBytes payload
  let charged := saturatingAdd h.used bytes
  if h.admits charged then
    (.ok ⟨bytes⟩, { h with used := charged, allocations := h.allocations + 1 })
  else (.error ⟨bytes, h.available.getD 0⟩, h)

/-- Takes a reservation back. -/
def release (h : Heap) (r : Reservation) : Heap :=
  { h with used := (h.used + (maxWord + 1) - r.bytes) % (maxWord + 1) }

/-- Takes several reservations back, each with `release`. -/
def releaseAll (h : Heap) (rs : List Reservation) : Heap :=
  rs.foldl release h

/-- `Heap.allocate` charges the object that it grants, and counts it. -/
theorem allocate_of_admits {h : Heap} {payload : Nat}
    (granted : h.admits (saturatingAdd h.used (objectBytes payload)) = true) :
    h.allocate payload =
      (.ok ⟨objectBytes payload⟩,
        { h with used := saturatingAdd h.used (objectBytes payload)
                 allocations := h.allocations + 1 }) := by
  simp [allocate, granted]

/-- `Heap.allocate` changes nothing if it refuses; it says what was asked for and what was left. -/
theorem allocate_of_not_admits {h : Heap} {payload : Nat}
    (refused : h.admits (saturatingAdd h.used (objectBytes payload)) = false) :
    h.allocate payload = (.error ⟨objectBytes payload, h.available.getD 0⟩, h) := by
  simp [allocate, refused]

/-- `Heap.release` of what is charged lowers the charge by as much. -/
theorem used_release {h : Heap} {r : Reservation} (charged : r.bytes ≤ h.used)
    (bounded : h.used ≤ maxWord) : (h.release r).used = h.used - r.bytes := by
  simp only [release]
  rw [show h.used + (maxWord + 1) - r.bytes = (h.used - r.bytes) + (maxWord + 1) by omega,
    Nat.add_mod_right, Nat.mod_eq_of_lt (by omega)]

@[simp] theorem releaseAll_nil (h : Heap) : h.releaseAll [] = h := rfl

@[simp] theorem releaseAll_cons (h : Heap) (r : Reservation) (rs : List Reservation) :
    h.releaseAll (r :: rs) = (h.release r).releaseAll rs := rfl

end Heap

end StackTrace
