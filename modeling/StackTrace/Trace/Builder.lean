import StackTrace.Program.Class
import StackTrace.Trace.Error
import StackTrace.Trace.Store

/-!
# Filling a store

A `Builder` writes frames into a store one after the other.  It keeps a no-safepoint scope open from
beginning to end and pauses it only to allocate a chunk or the hidden-frame marker.

A builder works on a new store, or over a finished one, whose chunks it then uses again before it
allocates any.  `finish` cuts a used store off behind the last frame written.

Every operation returns the builder and the memory also when it fails; a failed operation leaves
both as they were.
-/

namespace StackTrace

/-- A store that is being filled. -/
structure Builder where
  store : Store
  /-- The chunk that is being filled. -/
  current : Nat
  /-- The slot of it that is written next. -/
  slot : Nat
  /-- The number of frames written. -/
  depth : Nat
  /-- Whether the store was used before. -/
  reuse : Bool
  /-- The scope that the builder keeps open. -/
  verifier : Verifier

namespace Builder

/-- Begins a new store, which `Store.allocate` makes under an open scope. -/
def start (chunkSize : Nat) (m : Memory) : Except (Failure TraceError) Builder × Memory :=
  let (verifier, safepoints) := m.safepoints.openScope
  match Memory.paused { m with safepoints } verifier (Store.allocate chunkSize) with
  | (.ok store, m) =>
    (.ok { store, current := 0, slot := 0, depth := 0, reuse := false, verifier }, m)
  | (.error e, m) =>
    (.error (e.mapError .outOfMemory), { m with safepoints := m.safepoints.close verifier })

/-- Begins to fill a finished store again, with `reuse` set.  Its hidden-frame marker is given back. -/
def reopen (store : Store) (m : Memory) : Builder × Memory :=
  let m := m.releaseAll (store.hiddenTop.map (·.reservation)).toList
  let (verifier, safepoints) := m.safepoints.openScope
  ({ store := { store with hiddenTop := none }, current := 0, slot := 0, depth := 0, reuse := true,
     verifier }, { m with safepoints })

/-- Links a chunk behind the current one and goes on in its first slot. -/
def advance (b : Builder) (id : Nat) : Builder :=
  let ⟨⟨chunkSize, chunks, hiddenTop⟩, current, _, depth, reuse, verifier⟩ := b
  ⟨⟨chunkSize, chunks.modify current ({ · with next := some id }), hiddenTop⟩,
    id, 0, depth, reuse, verifier⟩

/-- Puts a chunk into the arena, where `advance` can link it. -/
def addChunk (b : Builder) (c : Chunk) : Builder :=
  let ⟨⟨chunkSize, chunks, hiddenTop⟩, current, slot, depth, reuse, verifier⟩ := b
  ⟨⟨chunkSize, chunks.push c, hiddenTop⟩, current, slot, depth, reuse, verifier⟩

/-- Goes on in a further chunk: the next one of a used store, or else a new one from
    `Chunk.allocate`. -/
def expand (b : Builder) (m : Memory) : Except (Failure TraceError) Unit × Builder × Memory :=
  if b.reuse && b.current + 1 < b.store.chunks.size then (.ok (), b.advance (b.current + 1), m)
  else
    match m.paused b.verifier (Chunk.allocate b.store.chunkSize) with
    | (.error e, m) => (.error (e.mapError .outOfMemory), b, m)
    | (.ok chunk, m) =>
      let id := b.store.chunks.size
      (.ok (), (b.addChunk chunk).advance id, m)

/-- Writes a frame into the next slot, which the current chunk has, with `Chunk.write`. -/
def write (b : Builder) (f : StoredFrame) : Builder :=
  let ⟨⟨chunkSize, chunks, hiddenTop⟩, current, slot, depth, reuse, verifier⟩ := b
  ⟨⟨chunkSize, chunks.modify current (·.write slot f), hiddenTop⟩,
    current, slot + 1, depth + 1, reuse, verifier⟩

/-- Records an activation of `method`, whose class is `holder`. -/
def push (b : Builder) (m : Memory) (holder : Class) (method : Method) (bci : Int) :
    Except (Failure TraceError) Unit × Builder × Memory :=
  match Location.pack bci method.generation with
  | .error _ =>
    (.error (.error (.bciOutOfRange (holder.externalName ++ "." ++ method.name.text) bci)), b, m)
  | .ok location =>
    let frame : StoredFrame := ⟨holder.id, method.ordinal, location, method.name⟩
    if b.slot < b.store.chunkSize then (.ok (), b.write frame, m)
    else
      match b.expand m with
      | (.error e, b, m) => (.error e, b, m)
      | (.ok (), b, m) => (.ok (), b.write frame, m)

/-- Marks that the innermost frame was hidden.  Only the first call allocates the `BoxedBool`. -/
def markHiddenTop (b : Builder) (m : Memory) :
    Except (Failure TraceError) Unit × Builder × Memory :=
  if b.store.hasHiddenTop then (.ok (), b, m)
  else
    match m.paused b.verifier (·.box true) with
    | (.error e, m) => (.error (e.mapError .outOfMemory), b, m)
    | (.ok marker, m) => (.ok (), { b with store := { b.store with hiddenTop := some marker } }, m)

/-- The finished store.  Of a store that was used before, nothing behind the last frame written is
    linked. -/
def finish (b : Builder) (m : Memory) : Store × Memory :=
  let m := { m with safepoints := m.safepoints.close b.verifier }
  if b.reuse then
    let ⟨⟨chunkSize, chunks, hiddenTop⟩, current, slot, _, _, _⟩ := b
    (⟨chunkSize, chunks.modify current ({ ·.clearFrom slot with next := none }), hiddenTop⟩, m)
  else (b.store, m)

/-- Gives up the builder and all `reservations` of its store. -/
def abandon (b : Builder) (m : Memory) : Memory :=
  let m := m.releaseAll b.store.reservations
  { m with safepoints := m.safepoints.close b.verifier }

end Builder

end StackTrace
