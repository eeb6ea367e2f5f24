import StackTrace.Proofs.Store.Shape

/-!
# Chunks by columns

A chunk can be kept by columns: one for the ordinals of its frames, one each for the locations, the
classes and the names, with an entry for every slot.  The columns by themselves do not say that a slot
with a class has a name, or that the occupied slots are those in front.  Every operation on a chunk
changes one column after the other, and a reader takes a slot for occupied if it has a class.

`Columns.Of` ties a chunk to the columns that were changed along with it.

## Key results

- `Columns.Of.eq_columns`: the columns of a chunk hold its frames, and are blank behind them
- `Columns.Of.isSome_holder?`: a slot has a class exactly if it has a name
- `Columns.Of.read?_eq`: what is read from the columns are the frames of the chunk
-/

namespace StackTrace

/-- The slots of a chunk by columns. -/
structure Columns where
  ordinals : Array Nat
  locations : Array Location
  holders : Array (Option ClassId)
  names : Array (Option Symbol)

namespace Columns

/-- The columns of a chunk without frames. -/
def blank (capacity : Nat) : Columns where
  ordinals := Array.replicate capacity 0
  locations := Array.replicate capacity ⟨0⟩
  holders := Array.replicate capacity none
  names := Array.replicate capacity none

/-- Puts the parts of a frame into a slot. -/
def write (cols : Columns) (slot : Nat) (f : StoredFrame) : Columns where
  ordinals := cols.ordinals.setIfInBounds slot f.ordinal
  locations := cols.locations.setIfInBounds slot f.location
  holders := cols.holders.setIfInBounds slot (some f.holder)
  names := cols.names.setIfInBounds slot (some f.name)

/-- A column with blank entries from `slot` on. -/
def blankFrom {α : Type} (column : Array α) (blank : α) (slot : Nat) : Array α :=
  column.mapIdx fun i entry => if i < slot then entry else blank

/-- Frees the slots from `slot` on. -/
def clearFrom (cols : Columns) (slot : Nat) : Columns where
  ordinals := blankFrom cols.ordinals 0 slot
  locations := blankFrom cols.locations ⟨0⟩ slot
  holders := blankFrom cols.holders none slot
  names := blankFrom cols.names none slot

/-- The class of a slot.  A slot without one counts as free. -/
def holder? (cols : Columns) (slot : Nat) : Option ClassId := cols.holders[slot]?.join

/-- The name of a slot. -/
def name? (cols : Columns) (slot : Nat) : Option Symbol := cols.names[slot]?.join

/-- Reads a slot, for which it needs `holder?` and `name?`. -/
def read? (cols : Columns) (slot : Nat) : Option StoredFrame := do
  let holder ← cols.holder? slot
  let ordinal ← cols.ordinals[slot]?
  let location ← cols.locations[slot]?
  let name ← cols.name? slot
  some ⟨holder, ordinal, location, name⟩

/-- The columns and the chunk have come about by the same operations.  `write` puts a frame into an
    occupied slot or the first free one. -/
inductive Of : Columns → Chunk → Prop
  | allocate (capacity : Nat) (reservation : Reservation) :
      Of (blank capacity) ⟨capacity, #[], none, reservation⟩
  | write {cols : Columns} {c : Chunk} (h : Of cols c) {slot : Nat} (hcapacity : slot < c.capacity)
      (hslot : slot ≤ c.frames.size) (f : StoredFrame) : Of (cols.write slot f) (c.write slot f)
  | clearFrom {cols : Columns} {c : Chunk} (h : Of cols c) (slot : Nat) :
      Of (cols.clearFrom slot) (c.clearFrom slot)
  | link {cols : Columns} {c : Chunk} (h : Of cols c) (next : Option Nat) :
      Of cols { c with next := next }

end Columns

/-! ## One column -/

namespace Chunk

/-- An `entry` for every frame of the chunk, and a `blank` one for every free slot. -/
def column {α : Type} (c : Chunk) (entry : StoredFrame → α) (blank : α) : Array α :=
  Array.ofFn fun slot : Fin c.capacity => (c.frames[slot.val]?.map entry).getD blank

/-- The columns that hold the frames of the chunk. -/
def columns (c : Chunk) : Columns where
  ordinals := c.column (·.ordinal) 0
  locations := c.column (·.location) ⟨0⟩
  holders := c.column (some ·.holder) none
  names := c.column (some ·.name) none

/-- `Chunk.write` is seen in its slot and in no other. -/
private theorem getElem?_frames_write {c : Chunk} {slot : Nat} (hslot : slot ≤ c.frames.size)
    (f : StoredFrame) (i : Nat) :
    (c.write slot f).frames[i]? = if slot = i then some f else c.frames[i]? := by
  rw [write_eq]
  split
  · grind
  · grind

/-- `Chunk.clearFrom` leaves the slots in front, and those behind are free. -/
private theorem getElem?_frames_clearFrom (c : Chunk) (slot i : Nat) :
    (c.clearFrom slot).frames[i]? = if i < slot then c.frames[i]? else none := by
  simp only [clearFrom]
  grind

section Column

variable {α : Type} (entry : StoredFrame → α) (blank : α)

/-- A place of `Chunk.column` has the entry of its frame, or the blank one. -/
private theorem getElem?_column (c : Chunk) (i : Nat) : (c.column entry blank)[i]? =
    if i < c.capacity then some ((c.frames[i]?.map entry).getD blank) else none := by
  rw [column, Array.getElem?_ofFn]
  split <;> rfl

/-- `Chunk.column` of an empty chunk is blank. -/
private theorem column_allocate (capacity : Nat) (reservation : Reservation) :
    column ⟨capacity, #[], none, reservation⟩ entry blank = Array.replicate capacity blank := by
  refine Array.ext_getElem? fun i => ?_
  simp [getElem?_column, Array.getElem?_replicate]

/-- `Chunk.column` after `Chunk.write` has one entry set. -/
private theorem column_write {c : Chunk} {slot : Nat} (hslot : slot ≤ c.frames.size) (f : StoredFrame) :
    (c.write slot f).column entry blank =
      (c.column entry blank).setIfInBounds slot (entry f) := by
  have hcapacity : (c.write slot f).capacity = c.capacity := by rw [write_eq]
  refine Array.ext_getElem? fun i => ?_
  rw [Array.getElem?_setIfInBounds, getElem?_column, getElem?_column, hcapacity,
    getElem?_frames_write hslot]
  by_cases hi : slot = i
  · -- Outside of the capacity neither side has an entry
    simp [hi, column]
  · simp [hi]

/-- `Chunk.column` after `Chunk.clearFrom` is blank from the slot on. -/
private theorem column_clearFrom (c : Chunk) (slot : Nat) : (c.clearFrom slot).column entry blank =
    Columns.blankFrom (c.column entry blank) blank slot := by
  refine Array.ext_getElem? fun i => ?_
  rw [Columns.blankFrom, Array.getElem?_mapIdx, getElem?_column, getElem?_column,
    getElem?_frames_clearFrom]
  by_cases hi : i < slot
  · simp [hi, clearFrom]
  · simp [hi, clearFrom]

/-- A place of `Chunk.column` has an entry exactly if its slot has a frame. -/
private theorem join_getElem?_column {c : Chunk} (hsize : c.frames.size ≤ c.capacity) (i : Nat) :
    (c.column (some <| entry ·) none)[i]?.join = c.frames[i]?.map entry := by
  rw [getElem?_column]
  split
  · -- The entry of a free slot is `none`
    cases c.frames[i]? with
    | none => rfl
    | some f => rfl
  · rw [Array.getElem?_eq_none (by omega)]
    rfl

end Column

/-- `Chunk.columns` of an empty chunk is `Columns.blank`. -/
private theorem columns_allocate (capacity : Nat) (reservation : Reservation) :
    columns ⟨capacity, #[], none, reservation⟩ = Columns.blank capacity := by
  simp only [columns, column_allocate, Columns.blank]

/-- `Chunk.columns` follows `Chunk.write` by `Columns.write`. -/
private theorem columns_write {c : Chunk} {slot : Nat} (hslot : slot ≤ c.frames.size) (f : StoredFrame) :
    (c.write slot f).columns = c.columns.write slot f := by
  simp only [columns, column_write _ _ hslot, Columns.write]

/-- `Chunk.columns` follows `Chunk.clearFrom` by `Columns.clearFrom`. -/
private theorem columns_clearFrom (c : Chunk) (slot : Nat) :
    (c.clearFrom slot).columns = c.columns.clearFrom slot := by
  simp only [columns, column_clearFrom, Columns.clearFrom]

end Chunk

/-! ## The columns of a chunk -/

namespace Columns.Of

variable {cols : Columns} {c : Chunk}

/-- A chunk that has `Columns.Of` it holds no more frames than its capacity. -/
private theorem size_le (h : cols.Of c) : c.frames.size ≤ c.capacity := by
  induction h with
  | allocate capacity reservation => exact Nat.zero_le _
  | write h hcapacity hslot f ih =>
    rw [Chunk.size_frames_write f hslot, Chunk.write_eq]
    exact Nat.max_le.mpr ⟨ih, hcapacity⟩
  | @clearFrom cols c h slot ih =>
    simp only [Chunk.clearFrom, Array.take_eq_extract, Array.size_extract]
    omega
  | link h next ih => exact ih

/-- The only `Columns.Of` a chunk are its `Chunk.columns`: they hold its frames at the front, and are
    blank behind them. -/
theorem eq_columns (h : cols.Of c) : cols = c.columns := by
  induction h with
  | allocate capacity reservation => exact (Chunk.columns_allocate capacity reservation).symm
  | write h hcapacity hslot f ih => rw [ih, Chunk.columns_write hslot]
  | clearFrom h slot ih => rw [ih, Chunk.columns_clearFrom]
  | link h next ih => exact ih

/-- `Columns.holder?` is the class of the frame in the slot. -/
theorem holder?_eq (h : cols.Of c) (slot : Nat) :
    cols.holder? slot = c.frames[slot]?.map (·.holder) := by
  rw [h.eq_columns]
  exact Chunk.join_getElem?_column _ h.size_le slot

/-- `Columns.name?` is the name of the frame in the slot. -/
private theorem name?_eq (h : cols.Of c) (slot : Nat) :
    cols.name? slot = c.frames[slot]?.map (·.name) := by
  rw [h.eq_columns]
  exact Chunk.join_getElem?_column _ h.size_le slot

/-- `Columns.holder?` has a class exactly if `Columns.name?` has a name. -/
theorem isSome_holder? (h : cols.Of c) (slot : Nat) :
    (cols.holder? slot).isSome = (cols.name? slot).isSome := by
  rw [h.holder?_eq, h.name?_eq, Option.isSome_map, Option.isSome_map]

/-- What `Columns.read?` reads are the frames of the chunk. -/
theorem read?_eq (h : cols.Of c) (slot : Nat) : cols.read? slot = c.frames[slot]? := by
  have hsize := h.size_le
  rw [read?, h.holder?_eq, h.name?_eq, h.eq_columns]
  simp only [Chunk.columns, Chunk.getElem?_column]
  cases hslot : c.frames[slot]? with
  | none => rfl
  | some f =>
    have hlt : slot < c.capacity := by
      have hlt := (Array.getElem?_eq_some_iff.mp hslot).1
      omega
    simp [hlt]

end Columns.Of

end StackTrace
