import StackTrace.Location
import StackTrace.Memory.Basic
import StackTrace.Program.Method

/-!
# The chunked store of frames

A trace is stored in chunks of one fixed capacity.  The chunks lie in an arena in the order in which
they were allocated, and each may be linked to the one after it.  The frames of a chunk occupy its
front slots; the first free slot ends the trace, so a store that is filled anew may hold fewer frames
than it has room for.

Each chunk owns the reservation that its slots are charged with, and the store owns a marker that is
set when the innermost frame of the stack was hidden.  A stored frame owns its class.
-/

namespace StackTrace

/-- A recorded frame, its bytecode index and class version as a packed `Location`. -/
structure StoredFrame where
  /-- The class of the method, which the frame keeps alive. -/
  holder : ClassId
  ordinal : Nat
  location : Location
  /-- The name of the method, kept for the case that the method itself is replaced. -/
  name : Symbol
  deriving DecidableEq, Repr

/-- A block of slots. -/
structure Chunk where
  capacity : Nat
  /-- The frames in the front slots. -/
  frames : Array StoredFrame
  /-- The chunk that the trace goes on in, by its place in the arena.  Places are exact numbers: they are
      meant to fit in 32 bits, and longer arenas are outside of what is modelled here. -/
  next : Option Nat
  reservation : Reservation
  deriving Repr

namespace Chunk

/-- The payload of a chunk: thirty bytes for each slot, and sixteen for the chunk. -/
def payloadBytes (capacity : Nat) : Nat := capacity * 30 + 16

/-- Allocates an empty chunk with `payloadBytes` for its payload. -/
def allocate (capacity : Nat) (m : Memory) : Except (Failure OutOfMemory) Chunk × Memory :=
  match m.allocate (payloadBytes capacity) with
  | (.ok r, m) => (.ok ⟨capacity, #[], none, r⟩, m)
  | (.error e, m) => (.error e, m)

/-- Puts a frame into a slot that is occupied or the first free one. -/
def write (c : Chunk) (slot : Nat) (f : StoredFrame) : Chunk :=
  let ⟨capacity, frames, next, reservation⟩ := c
  if slot < frames.size then ⟨capacity, frames.setIfInBounds slot f, next, reservation⟩
  else ⟨capacity, frames.push f, next, reservation⟩

/-- Frees the slots from `slot` on. -/
def clearFrom (c : Chunk) (slot : Nat) : Chunk := { c with frames := c.frames.take slot }

end Chunk

/-- A stored trace. -/
structure Store where
  /-- The capacity of every chunk. -/
  chunkSize : Nat
  /-- The arena; the trace starts in the first chunk. -/
  chunks : Array Chunk
  /-- Set if the innermost frame of the stack was hidden. -/
  hiddenTop : Option BoxedBool
  deriving Repr

namespace Store

/-- Whether the innermost frame of the stack was hidden, as `hiddenTop` says. -/
def hasHiddenTop (s : Store) : Bool := (s.hiddenTop.map (·.value)).getD false

/-- Allocates a store of one empty chunk with `Chunk.allocate`. -/
def allocate (chunkSize : Nat) (m : Memory) : Except (Failure OutOfMemory) Store × Memory :=
  if chunkSize = 0 then (.error (.violation .emptyChunk), m)
  else
    match Chunk.allocate chunkSize m with
    | (.ok head, m) => (.ok ⟨chunkSize, #[head], none⟩, m)
    | (.error e, m) => (.error e, m)

/-- Everything that the store has charged to the heap. -/
def reservations (s : Store) : List Reservation :=
  s.chunks.toList.map (·.reservation) ++ (s.hiddenTop.map (·.reservation)).toList

/-- The classes that the store keeps alive: those of all frames in it, in linked chunks or not. -/
def owners (s : Store) : List ClassId :=
  s.chunks.toList.flatMap fun c => c.frames.toList.map (·.holder)

/-- The numbers of the chunks linked from chunk `id` on, as long as they increase, behind those of
    `seen`, which come latest first. -/
def linkedFrom (s : Store) (seen : List Nat) (id : Nat) : List Nat :=
  match (s.chunks[id]?).bind (·.next) with
  | none => (id :: seen).reverse
  | some n =>
    if id < n ∧ n < s.chunks.size then s.linkedFrom (id :: seen) n else (id :: seen).reverse
termination_by s.chunks.size - id

/-- The numbers of the linked chunks, by `linkedFrom` the first. -/
def linked (s : Store) : List Nat := s.linkedFrom [] 0

/-- The number of `linked` chunks. -/
def chunkCount (s : Store) : Nat := s.linked.length

end Store

end StackTrace
