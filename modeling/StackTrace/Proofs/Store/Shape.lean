import StackTrace.Proofs.Store.Layout
import StackTrace.Proofs.Store.Operations

/-!
# The store under a builder

A builder has written the frames in front of its cursor; what its store holds behind the cursor is
left over from an earlier trace.  `Builder.written` is the view under which a builder is described.

## Key results

- `Builder.Ready.write`: a write appends one frame to what is written, whatever is left over
- `Builder.Shape.expand_ok`: going on in a further chunk writes nothing, and finds the chunk behind
  the current one or none at all
-/

namespace StackTrace

/-! ## Writing a slot -/

namespace Chunk

/-- `Chunk.write` makes a chunk longer only if a free slot was written. -/
theorem size_frames_write {c : Chunk} {slot : Nat} (f : StoredFrame)
    (hslot : slot ≤ c.frames.size) :
    (c.write slot f).frames.size = max c.frames.size (slot + 1) := by
  rw [write_eq]
  split
  · rw [Array.size_setIfInBounds]
    omega
  · rw [Array.size_push]
    omega

/-- `Chunk.write` leaves the frames in front of the slot that it writes. -/
private theorem take_frames_write {c : Chunk} {slot : Nat} (f : StoredFrame)
    (hslot : slot ≤ c.frames.size) :
    (c.write slot f).frames.toList.take (slot + 1) = c.frames.toList.take slot ++ [f] := by
  rw [write_eq]
  split
  · -- An occupied slot: what follows it is cut off
    rename_i hlt
    have hlen : slot < (c.frames.toList.set slot f).length := by
      rw [List.length_set, Array.length_toList]
      exact hlt
    rw [Array.toList_setIfInBounds, List.take_succ_eq_append_getElem hlen, List.getElem_set_self,
      List.take_set_of_le (Nat.le_refl slot)]
  · -- The first free slot: nothing follows it
    have hlen : slot = c.frames.toList.length := by
      rw [Array.length_toList]
      omega
    rw [Array.toList_push, hlen, List.take_length, List.take_of_length_le (by simp)]

/-- `Chunk.write` does not make a chunk outgrow its capacity. -/
theorem Fits.write {C : Nat} {c : Chunk} (h : c.Fits C) {slot : Nat} (hslot : slot < C)
    (f : StoredFrame) : (c.write slot f).Fits C where
  capacity_eq := by
    rw [write_eq]
    exact h.capacity_eq
  size_le := by
    have hsize := h.size_le
    rw [write_eq]
    split
    · rw [Array.size_setIfInBounds]
      exact hsize
    · rw [Array.size_push]
      omega

end Chunk

/-- `List.modify` at the place of an entry. -/
private theorem modify_append_cons {α : Type} (xs : List α) (y : α) (ys : List α) (g : α → α) :
    (xs ++ y :: ys).modify xs.length g = xs ++ g y :: ys := by
  induction xs with
  | nil => rfl
  | cons x xs ih => simp only [List.cons_append, List.length_cons, List.modify_succ_cons, ih]

/-- `Array.modify` at the place of an entry changes no other. -/
theorem toList_modify_of_eq {α : Type} {cs : Array α} {xs ys : List α} {y : α}
    (h : cs.toList = xs ++ y :: ys) (g : α → α) :
    (cs.modify xs.length g).toList = xs ++ g y :: ys := by
  rw [Array.toList_modify, h, modify_append_cons]

/-! ## The parts of a store that is being filled -/

namespace Builder

/-- The frames written so far: the first `Builder.depth` of those that lie in the chunks. -/
def written (b : Builder) : List StoredFrame :=
  (Chunk.contents b.store.chunks.toList).take b.depth

/-- The chunks of a store that is being filled, by the part they play: `full` ones, the one that the
    cursor stands in, and the `spare` ones that the builder has not come to. -/
structure Shape (b : Builder) (full : List Chunk) (last : Chunk) (spare : List Chunk) : Prop where
  chunks_eq : b.store.chunks.toList = full ++ last :: spare
  chunkSize_pos : 0 < b.store.chunkSize
  linked : Chunk.Linked b.store.chunkSize 0 full
  last_fits : last.Fits b.store.chunkSize
  spare_fits : ∀ c ∈ spare, c.Fits b.store.chunkSize
  current_eq : b.current = full.length
  slot_le : b.slot ≤ last.frames.size
  depth_eq : b.depth = full.length * b.store.chunkSize + b.slot

/-- Nothing lies behind the cursor, neither in `last` nor in another chunk. -/
structure AtEnd (b : Builder) (last : Chunk) (spare : List Chunk) : Prop where
  spare_eq : spare = []
  size_eq : last.frames.size = b.slot
  next_eq : last.next = none

/-- The state of a builder between two operations, by a `Shape`.  The cursor never waits at the start of
    a chunk other than the first, and on a new store nothing lies behind it. -/
def Sound (b : Builder) : Prop :=
  ∃ full last spare, b.Shape full last spare ∧ (full ≠ [] → 0 < b.slot) ∧
    (b.reuse = false → b.AtEnd last spare)

/-- What the operations of a `Builder` keep. -/
structure SameStore (b b' : Builder) : Prop where
  chunkSize_eq : b'.store.chunkSize = b.store.chunkSize
  reuse_eq : b'.reuse = b.reuse
  verifier_eq : b'.verifier = b.verifier

/-- `SameStore` is reflexive. -/
theorem SameStore.refl (b : Builder) : b.SameStore b := ⟨rfl, rfl, rfl⟩

/-- `SameStore` is transitive. -/
theorem SameStore.trans {b b' b'' : Builder} (h : b.SameStore b') (h' : b'.SameStore b'') :
    b.SameStore b'' where
  chunkSize_eq := h'.chunkSize_eq.trans h.chunkSize_eq
  reuse_eq := h'.reuse_eq.trans h.reuse_eq
  verifier_eq := h'.verifier_eq.trans h.verifier_eq

namespace Shape

variable {b : Builder} {full : List Chunk} {last : Chunk} {spare : List Chunk}

/-- `Builder.Shape` accounts for all chunks of the arena. -/
theorem size_eq (h : b.Shape full last spare) :
    b.store.chunks.size = full.length + 1 + spare.length := by
  rw [← Array.length_toList, h.chunks_eq, List.length_append, List.length_cons]
  omega

/-- What has been written by `Builder.Shape` lies in the full chunks and in front of the cursor. -/
theorem written_eq (h : b.Shape full last spare) :
    b.written = Chunk.contents full ++ last.frames.toList.take b.slot := by
  have hslot : b.slot ≤ last.frames.toList.length := by
    rw [Array.length_toList]
    exact h.slot_le
  rw [written, h.chunks_eq, Chunk.contents_append, Chunk.contents_cons, h.depth_eq,
    ← Chunk.length_contents_of_linked h.linked, List.take_length_add_append,
    List.take_append_of_le_length hslot]

/-- What has been written by `Builder.Shape` has been counted. -/
theorem length_written (h : b.Shape full last spare) : b.written.length = b.depth := by
  have hslot := h.slot_le
  rw [h.written_eq, List.length_append, Chunk.length_contents_of_linked h.linked, List.length_take,
    @Array.length_toList _ last.frames, h.depth_eq, Nat.min_eq_left hslot]

/-- Changing the chunk that the cursor stands in changes no other chunk of `Builder.Shape`. -/
theorem toList_modify (h : b.Shape full last spare) (g : Chunk → Chunk) :
    (b.store.chunks.modify b.current g).toList = full ++ g last :: spare := by
  rw [h.current_eq, toList_modify_of_eq h.chunks_eq]

/-- `Builder.write` goes into the chunk that the cursor stands in. -/
theorem write (h : b.Shape full last spare) (hslot : b.slot < b.store.chunkSize)
    (f : StoredFrame) : (b.write f).Shape full (last.write b.slot f) spare where
  chunks_eq := h.toList_modify _
  chunkSize_pos := h.chunkSize_pos
  linked := h.linked
  last_fits := h.last_fits.write hslot f
  spare_fits := h.spare_fits
  current_eq := h.current_eq
  slot_le := by
    rw [Chunk.size_frames_write f h.slot_le]
    exact Nat.le_max_right _ _
  depth_eq := by
    rw [write_eq]
    simp only [h.depth_eq]
    omega

/-- `Builder.addChunk` puts a chunk behind all others. -/
private theorem addChunk (h : b.Shape full last spare) {c : Chunk} (hc : c.Fits b.store.chunkSize) :
    (b.addChunk c).Shape full last (spare ++ [c]) where
  chunks_eq := by
    rw [addChunk_eq, Array.toList_push, h.chunks_eq, List.append_assoc, List.cons_append]
  chunkSize_pos := h.chunkSize_pos
  linked := h.linked
  last_fits := h.last_fits
  spare_fits := by
    intro d hd
    rcases List.mem_append.mp hd with hd | hd
    · exact h.spare_fits d hd
    · rw [List.mem_singleton.mp hd]
      exact hc
  current_eq := h.current_eq
  slot_le := h.slot_le
  depth_eq := h.depth_eq

/-- When its chunk is full, `Builder.advance` moves the cursor to the first of the chunks behind it. -/
private theorem advance {c : Chunk} (h : b.Shape full last (c :: spare))
    (hslot : b.slot = b.store.chunkSize) :
    (b.advance (full.length + 1)).Shape
      (full ++ [{ last with next := some (full.length + 1) }]) c spare where
  chunks_eq := by
    rw [advance_eq, h.toList_modify, List.append_assoc]
    rfl
  chunkSize_pos := h.chunkSize_pos
  linked := by
    -- The cursor has passed every slot, so none of them is free
    have hsize : last.frames.size = b.store.chunkSize :=
      Nat.le_antisymm h.last_fits.size_le (hslot ▸ h.slot_le)
    refine (Chunk.linked_append_singleton _ _ _ _).mpr
      ⟨h.linked, h.last_fits.capacity_eq, hsize, ?_⟩
    rw [Nat.zero_add]
  last_fits := h.spare_fits c (List.mem_cons_self)
  spare_fits := fun d hd => h.spare_fits d (List.mem_cons_of_mem c hd)
  current_eq := by rw [advance_eq, List.length_append, List.length_singleton]
  slot_le := Nat.zero_le _
  depth_eq := by
    rw [advance_eq, List.length_append, List.length_singleton]
    simp only [h.depth_eq, hslot, Nat.add_mul, Nat.one_mul, Nat.add_zero]

/-- `Builder.advance` writes nothing. -/
private theorem written_advance {c : Chunk} (h : b.Shape full last (c :: spare))
    (hslot : b.slot = b.store.chunkSize) :
    (b.advance (full.length + 1)).written = b.written := by
  -- The whole chunk is in front of the cursor
  have hall : last.frames.toList.length ≤ b.slot := by
    rw [Array.length_toList, hslot]
    exact h.last_fits.size_le
  rw [(h.advance hslot).written_eq, h.written_eq, List.take_of_length_le hall, advance_eq]
  simp only [Chunk.contents_append, Chunk.contents_cons, Chunk.contents_nil, List.take_zero,
    List.append_nil]

end Shape

/-- The state of a builder whose cursor stands on a slot that `Builder.push` can write. -/
def Ready (b : Builder) : Prop :=
  ∃ full last spare, b.Shape full last spare ∧ b.slot < b.store.chunkSize ∧
    (b.reuse = false → b.AtEnd last spare)

/-- A `Builder.Sound` builder whose cursor has a slot is `Builder.Ready`. -/
theorem Sound.ready {b : Builder} (h : b.Sound) (hslot : b.slot < b.store.chunkSize) :
    b.Ready := by
  obtain ⟨full, last, spare, hshape, -, hend⟩ := h
  exact ⟨full, last, spare, hshape, hslot, hend⟩

/-- `Builder.write` appends the frame to what is written. -/
theorem Ready.write {b : Builder} (h : b.Ready) (f : StoredFrame) :
    (b.write f).Sound ∧ (b.write f).written = b.written ++ [f] := by
  obtain ⟨full, last, spare, hshape, hslot, hend⟩ := h
  refine ⟨⟨full, _, spare, hshape.write hslot f, fun _ => Nat.succ_pos _, fun hfresh => ?_⟩, ?_⟩
  · -- On a new store the slot was the first free one, so nothing lies behind it now either
    obtain ⟨hspare, hsize, hnext⟩ := hend hfresh
    refine ⟨hspare, ?_, ?_⟩
    · rw [Chunk.size_frames_write f hshape.slot_le, hsize]
      exact Nat.max_eq_right (Nat.le_succ _)
    · rw [Chunk.write_eq]
      exact hnext
  · rw [(hshape.write hslot f).written_eq, hshape.written_eq, List.append_assoc, write_eq,
      Chunk.take_frames_write f hshape.slot_le]

/-! ## Going on in a further chunk -/

/-- From a full chunk `Builder.expand` moves the cursor to a slot that can be written, and nothing is
    written. -/
theorem Shape.expand_ok {b b' : Builder} {full : List Chunk} {last : Chunk} {spare : List Chunk}
    {m m' : Memory} (h : b.Shape full last spare) (hslot : b.slot = b.store.chunkSize)
    (hend : b.reuse = false → b.AtEnd last spare) (hexpand : b.expand m = (.ok (), b', m')) :
    b'.Ready ∧ b'.written = b.written ∧ b.SameStore b' ∧
      b'.store.hiddenTop = b.store.hiddenTop := by
  have hsize := h.size_eq
  rcases expand_cases hexpand with ⟨⟨e, he⟩, -⟩ | ⟨-, hreuse, hlt, rfl⟩ | ⟨-, hlast, reservation, rfl⟩
  · cases he
  · -- The next chunk of a used store
    rw [h.current_eq, hsize] at hlt
    cases spare with
    | nil => exact absurd hlt (Nat.lt_irrefl _)
    | cons c spare =>
      rw [h.current_eq]
      refine ⟨⟨_, c, spare, h.advance hslot, h.chunkSize_pos, fun hfresh => ?_⟩,
        h.written_advance hslot, ⟨rfl, rfl, rfl⟩, rfl⟩
      exact absurd (hreuse.symm.trans hfresh) (by decide)
  · -- A new chunk, which is put behind the current one because no other is left
    have hspare : spare = [] := by
      cases hreuse : b.reuse with
      | false => exact (hend hreuse).spare_eq
      | true =>
        have hle := hlast hreuse
        rw [h.current_eq, hsize] at hle
        exact List.eq_nil_of_length_eq_zero (by omega)
    subst hspare
    have hadd := h.addChunk (Chunk.fits_empty b.store.chunkSize reservation)
    rw [List.length_nil, Nat.add_zero] at hsize
    rw [hsize]
    refine ⟨⟨_, _, [], hadd.advance hslot, h.chunkSize_pos, fun _ => ⟨rfl, rfl, rfl⟩⟩, ?_,
      ⟨rfl, rfl, rfl⟩, rfl⟩
    rw [hadd.written_advance hslot, hadd.written_eq, h.written_eq]
    rfl

end Builder

end StackTrace
