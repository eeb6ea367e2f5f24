import StackTrace.Trace.Store

/-!
# Reading a store back

A `Cursor` reads the frames of a store in the order in which they were recorded, innermost first.
It stands on a slot, and moves to the next chunk as soon as it has read the last slot of one.  The
trace ends where the cursor does not stand on a frame.

`Store.frames` is the whole trace, and the view under which a store is described.
-/

namespace StackTrace

/-- A place in a `Store`. -/
structure Cursor where
  store : Store
  /-- The chunk the cursor stands in, if any. -/
  chunk : Option Nat
  slot : Nat

namespace Cursor

/-- At the first slot. -/
def start (s : Store) : Cursor := ⟨s, some 0, 0⟩

/-- The frame under the cursor. -/
def frame? (c : Cursor) : Option StoredFrame := do
  let chunk ← c.store.chunks[← c.chunk]?
  chunk.frames[c.slot]?

/-- Whether the cursor stands on a `frame?`. -/
def hasMore (c : Cursor) : Bool := c.frame?.isSome

/-- The `frame?` under the cursor, which moves past it. -/
def next (c : Cursor) : Option StoredFrame × Cursor :=
  match c.chunk.bind (c.store.chunks[·]?) with
  | none => (none, c)
  | some chunk =>
    match chunk.frames[c.slot]? with
    | none => (none, c)
    | some f =>
      if c.slot + 1 < chunk.capacity then (some f, { c with slot := c.slot + 1 })
      else (some f, { c with chunk := chunk.next, slot := 0 })

/-- The frames that the cursor still has before it, at most `fuel` of them, behind those of `found`,
    which come latest first. -/
def collect : (fuel : Nat) → Cursor → (found : List StoredFrame) → List StoredFrame
  | 0, _, found => found.reverse
  | fuel + 1, c, found =>
    match c.next with
    | (none, _) => found.reverse
    | (some f, c) => collect fuel c (f :: found)

/-- The frames that `next` gives from here on.  No trace has more frames than its arena has slots. -/
def rest (c : Cursor) : List StoredFrame :=
  c.collect (c.store.chunks.size * c.store.chunkSize) []

/-- The number of frames in the `rest`. -/
def remaining (c : Cursor) : Nat := c.rest.length

end Cursor

namespace Store

/-- The recorded frames, innermost first: the `rest` of a cursor at the start. -/
def frames (s : Store) : List StoredFrame := (Cursor.start s).rest

/-- The number of recorded `frames`. -/
def frameCount (s : Store) : Nat := s.frames.length

end Store

/-- What a `Cursor` says on its way: whether it stands on a frame, how many frames it still has before
    it, and the frame that it then reads. -/
structure CursorReading where
  hasMore : Bool
  remaining : Nat
  frame : Option StoredFrame

/-- The readings of a cursor up to the first that gives no frame, at most `fuel` of them, and the
    cursor after them. -/
def Cursor.readings : (fuel : Nat) → Cursor → List CursorReading × Cursor
  | 0, c => ([], c)
  | fuel + 1, c =>
    let (frame, after) := c.next
    let reading := ⟨c.hasMore, c.remaining, frame⟩
    if frame.isNone then ([reading], after)
    else
      let (readings, last) := readings fuel after
      (reading :: readings, last)

/-- All readings of a store, and the cursor behind its last frame. -/
def Store.readings (s : Store) : List CursorReading × Cursor :=
  (Cursor.start s).readings (s.frameCount + 1)

end StackTrace
