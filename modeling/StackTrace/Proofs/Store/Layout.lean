import StackTrace.Trace.Replay

/-!
# How a trace lies in its store

The chunks of a store play three parts.  Those at the front are *full*: every slot holds a frame, and
each is linked to the one behind it.  The trace ends in the *last* chunk, which is linked to none.
What comes behind that is *spare*: chunks left over from a longer trace that was stored before.

A chunk that is linked to the next one need not be full, if the writer went on before it was.  A reader
goes through the chunks page by page and stops behind the first that is not full (`readThrough`).

## Key results

- `Cursor.Reads`: what a cursor still reads, as a relation; `Cursor.collect_of_reads` ties it to the
  reader that runs
- `Store.frames_of_chained`: the trace is what is read through the chunks, full or not
- `Store.Layout.frames_eq`: the trace is what lies in the full chunks and the last one, in order
- `Store.Layout.chunkCount_eq`: the linked chunks are the full ones and the last one
-/

namespace StackTrace

namespace Chunk

/-- A chunk of capacity `C` with no more frames than that. -/
structure Fits (C : Nat) (c : Chunk) : Prop where
  capacity_eq : c.capacity = C
  size_le : c.frames.size ≤ C

/-- An empty chunk of the right capacity is `Chunk.Fits`. -/
theorem fits_empty (C : Nat) (reservation : Reservation) : Fits C ⟨C, #[], none, reservation⟩ where
  capacity_eq := rfl
  size_le := Nat.zero_le _

/-- Chunks without a free slot, each linked to the next one; the first of them is chunk `id`. -/
def Linked (C : Nat) : Nat → List Chunk → Prop
  | _, [] => True
  | id, c :: cs =>
    (c.capacity = C ∧ c.frames.size = C ∧ c.next = some (id + 1)) ∧ Linked C (id + 1) cs

/-- Chunks each of which is linked to the next one, full or not; the first of them is chunk `id`. -/
def Chained (C : Nat) : Nat → List Chunk → Prop
  | _, [] => True
  | id, c :: cs => (c.Fits C ∧ c.next = some (id + 1)) ∧ Chained C (id + 1) cs

/-- The frames in some chunks, in order. -/
def contents (cs : List Chunk) : List StoredFrame := cs.flatMap (·.frames.toList)

@[simp] theorem contents_nil : contents [] = [] := rfl

@[simp] theorem contents_cons (c : Chunk) (cs : List Chunk) :
    contents (c :: cs) = c.frames.toList ++ contents cs := rfl

/-- `Chunk.contents` of two parts of an arena. -/
@[simp] theorem contents_append (cs ds : List Chunk) :
    contents (cs ++ ds) = contents cs ++ contents ds := List.flatMap_append

/-- `Chunk.Linked` with one more chunk at the end, which is full and linked to the next place. -/
theorem linked_append_singleton (C id : Nat) (cs : List Chunk) (c : Chunk) :
    Linked C id (cs ++ [c]) ↔ Linked C id cs ∧
      c.capacity = C ∧ c.frames.size = C ∧ c.next = some (id + cs.length + 1) := by
  induction cs generalizing id with
  | nil => simp only [List.nil_append, Linked, and_true, true_and, List.length_nil, Nat.add_zero]
  | cons d ds ih =>
    have hlen : id + 1 + ds.length = id + (ds.length + 1) := by omega
    simp only [List.cons_append, Linked, ih, List.length_cons, hlen, and_assoc]

/-- `Chunk.Chained` with one more chunk at the end, which is linked to the next place. -/
theorem chained_append_singleton (C id : Nat) (cs : List Chunk) (c : Chunk) :
    Chained C id (cs ++ [c]) ↔ Chained C id cs ∧ c.Fits C ∧ c.next = some (id + cs.length + 1) := by
  induction cs generalizing id with
  | nil => simp only [List.nil_append, Chained, and_true, true_and, List.length_nil, Nat.add_zero]
  | cons d ds ih =>
    have hlen : id + 1 + ds.length = id + (ds.length + 1) := by omega
    simp only [List.cons_append, Chained, ih, List.length_cons, hlen, and_assoc]

/-- Chunks that are `Chunk.Linked` are `Chunk.Chained`. -/
private theorem chained_of_linked {C id : Nat} {cs : List Chunk} (h : Linked C id cs) : Chained C id cs := by
  induction cs generalizing id with
  | nil => trivial
  | cons c cs ih =>
    obtain ⟨⟨hcap, hsize, hnext⟩, hrest⟩ := h
    exact ⟨⟨⟨hcap, Nat.le_of_eq hsize⟩, hnext⟩, ih hrest⟩

/-- Chunks that are `Chunk.Linked` are full. -/
theorem length_contents_of_linked {C id : Nat} {cs : List Chunk} (h : Linked C id cs) :
    (contents cs).length = cs.length * C := by
  induction cs generalizing id with
  | nil => simp only [contents_nil, List.length_nil, Nat.zero_mul]
  | cons c cs ih =>
    obtain ⟨⟨_, hsize, _⟩, hrest⟩ := h
    rw [contents_cons, List.length_append, Array.length_toList, hsize, ih hrest, List.length_cons,
      Nat.succ_mul, Nat.add_comm]

/-- Each of some `Chunk.Chained` chunks is `Chunk.Fits`. -/
private theorem fits_of_chained {C id : Nat} {cs : List Chunk} (h : Chained C id cs) :
    ∀ c ∈ cs, c.Fits C := by
  induction cs generalizing id with
  | nil => simp only [List.not_mem_nil, false_implies, implies_true]
  | cons d ds ih =>
    obtain ⟨⟨hfits, _⟩, hrest⟩ := h
    intro c hc
    rcases List.mem_cons.mp hc with rfl | hc
    · exact hfits
    · exact ih hrest c hc

/-- Each of some `Chunk.Linked` chunks is `Chunk.Fits`. -/
theorem fits_of_linked {C id : Nat} {cs : List Chunk} (h : Linked C id cs) :
    ∀ c ∈ cs, c.Fits C := fits_of_chained (chained_of_linked h)

/-- Each of some `Chunk.Linked` chunks is full. -/
theorem full_of_linked {C id : Nat} {cs : List Chunk} (h : Linked C id cs) :
    ∀ c ∈ cs, c.capacity = C ∧ c.frames.size = C := by
  induction cs generalizing id with
  | nil => simp
  | cons d ds ih =>
    obtain ⟨⟨hcapacity, hsize, -⟩, hrest⟩ := h
    intro c hc
    rcases List.mem_cons.mp hc with rfl | hc
    · exact ⟨hcapacity, hsize⟩
    · exact ih hrest c hc

end Chunk

/-! ## Page by page -/

/-- The pages up to the first that has less than `size` entries. -/
def readThrough {α : Type} (size : Nat) : List (List α) → List α
  | [] => []
  | page :: pages => page ++ if page.length < size then [] else readThrough size pages

section ReadThrough

variable {α : Type} {size : Nat}

/-- What `readThrough` reads are the first of all entries. -/
theorem readThrough_prefix (pages : List (List α)) : readThrough size pages <+: pages.flatten := by
  induction pages with
  | nil => exact List.prefix_refl _
  | cons page pages ih =>
    rw [readThrough, List.flatten_cons, List.prefix_append_right_inj]
    split
    · exact List.nil_prefix
    · exact ih

/-- `readThrough` reads everything exactly if nothing lies behind a page that is not full. -/
theorem readThrough_eq_flatten_iff (pages : List (List α)) :
    readThrough size pages = pages.flatten ↔
      pages.Pairwise fun page behind => page.length < size → behind = [] := by
  induction pages with
  | nil => exact iff_of_true rfl .nil
  | cons page pages ih =>
    rw [readThrough, List.flatten_cons, List.append_cancel_left_eq, List.pairwise_cons]
    split
    -- At a short page reading stops, so all that is behind it has to be empty
    · rename_i hshort
      rw [eq_comm, List.flatten_eq_nil_iff]
      constructor
      · intro hnone
        exact ⟨fun behind hbehind _ => hnone behind hbehind,
          List.pairwise_of_forall_mem_list fun _ _ behind hbehind _ => hnone behind hbehind⟩
      · rintro ⟨hnone, -⟩ behind hbehind
        exact hnone behind hbehind hshort
    -- A full page puts no condition on what is behind it
    · rename_i hfull
      exact ih.trans (and_iff_right fun _ _ hshort => absurd hshort hfull).symm

/-- `readThrough` reads full pages up to the last one, and that as well. -/
theorem readThrough_of_full {pages : List (List α)} (hfull : ∀ page ∈ pages, size ≤ page.length)
    (last : List α) : readThrough size (pages ++ [last]) = (pages ++ [last]).flatten := by
  rw [readThrough_eq_flatten_iff, List.pairwise_append]
  refine ⟨List.pairwise_of_forall_mem_list fun page hpage _ _ hshort => ?_,
    List.pairwise_singleton _ _, fun page hpage _ _ hshort => ?_⟩
  · exact absurd hshort (Nat.not_lt.mpr (hfull page hpage))
  · exact absurd hshort (Nat.not_lt.mpr (hfull page hpage))

/-- `readThrough` reads no more than the pages have room for. -/
private theorem length_readThrough_le {pages : List (List α)} (hfits : ∀ page ∈ pages, page.length ≤ size) :
    (readThrough size pages).length ≤ pages.length * size := by
  induction pages with
  | nil => exact Nat.zero_le _
  | cons page pages ih =>
    obtain ⟨hpage, hpages⟩ := List.forall_mem_cons.mp hfits
    have hrest := ih hpages
    rw [readThrough, List.length_append, List.length_cons, Nat.add_mul, Nat.one_mul]
    split
    · rw [List.length_nil]
      omega
    · omega

end ReadThrough

/-! ## What a cursor reads -/

namespace Cursor

/-- `Cursor.next` reads the given frames, and nothing behind them. -/
inductive Reads : Cursor → List StoredFrame → Prop
  | done {c : Cursor} (h : c.next.1 = none) : Reads c []
  | frame {c c' : Cursor} {f : StoredFrame} {fs : List StoredFrame} (h : c.next = (some f, c')) :
    Reads c' fs → Reads c (f :: fs)

/-- With room for all of them, `Cursor.collect` lists the frames that a cursor reads. -/
theorem collect_of_reads {c : Cursor} {fs : List StoredFrame} (h : c.Reads fs) :
    ∀ (fuel : Nat) (found : List StoredFrame), fs.length ≤ fuel →
      c.collect fuel found = found.reverse ++ fs := by
  -- Induction on what is read; each frame costs one unit of fuel
  induction h with
  | @done c hnone =>
    intro fuel found _
    cases fuel with
    | zero => simp only [collect, List.append_nil]
    | succ fuel =>
      simp only [collect, List.append_nil]
      split
      · rfl
      · rename_i hsome
        rw [hsome] at hnone
        exact nomatch hnone
  | frame hnext _ ih =>
    intro fuel found hfuel
    cases fuel with
    | zero => exact absurd hfuel (Nat.not_succ_le_zero _)
    | succ fuel =>
      simp only [collect, hnext]
      rw [ih fuel _ (Nat.le_of_succ_le_succ hfuel), List.reverse_cons, List.append_assoc]
      rfl

/-- `Cursor.next` on a frame reads it and moves past it. -/
theorem next_of_getElem? {s : Store} {id slot : Nat} {c : Chunk} {f : StoredFrame}
    (hc : s.chunks[id]? = some c) (hf : c.frames[slot]? = some f) :
    (⟨s, some id, slot⟩ : Cursor).next =
      (some f, if slot + 1 < c.capacity then ⟨s, some id, slot + 1⟩ else ⟨s, c.next, 0⟩) := by
  simp only [next, Option.bind_some, hc, hf]
  split <;> rfl

/-- Behind the last frame of a chunk a cursor `Cursor.Reads` nothing. -/
private theorem reads_of_size_le {s : Store} {id slot : Nat} {c : Chunk} (hc : s.chunks[id]? = some c)
    (hslot : c.frames.size ≤ slot) : Reads ⟨s, some id, slot⟩ [] := by
  apply Reads.done
  simp only [next, Option.bind_some, hc, Array.getElem?_eq_none hslot]

/-- In a chunk that has a free slot, or that no chunk follows, a cursor `Cursor.Reads` the frames from
    its slot on, and nothing behind them. -/
private theorem reads_last {s : Store} {id : Nat} {c : Chunk} (hc : s.chunks[id]? = some c)
    (hend : c.frames.size = c.capacity → c.next = none) (hsize : c.frames.size ≤ c.capacity)
    (slot : Nat) : Reads ⟨s, some id, slot⟩ (c.frames.toList.drop slot) := by
  -- Induction on the frames that are left in the chunk
  induction hleft : c.frames.size - slot generalizing slot with
  | zero =>
    rw [List.drop_of_length_le (by rw [Array.length_toList]; omega)]
    exact reads_of_size_le hc (by omega)
  | succ left ih =>
    have hlt : slot < c.frames.size := by omega
    rw [List.drop_eq_getElem_cons (by rw [Array.length_toList]; exact hlt)]
    refine Reads.frame (next_of_getElem? hc (Array.getElem?_eq_getElem hlt)) ?_
    split
    · exact ih (slot + 1) (by omega)
    · -- The last slot has been read, and no chunk follows
      rw [List.drop_of_length_le (by rw [Array.length_toList]; omega), hend (by omega)]
      exact Reads.done rfl

/-- In a full chunk a cursor `Cursor.Reads` the frames from its slot on, and then what follows the
    chunk. -/
private theorem reads_full {s : Store} {id : Nat} {c : Chunk} {fs : List StoredFrame}
    (hc : s.chunks[id]? = some c) (hfull : c.frames.size = c.capacity)
    (hrest : Reads ⟨s, c.next, 0⟩ fs) {slot : Nat} (hslot : slot < c.capacity) :
    Reads ⟨s, some id, slot⟩ (c.frames.toList.drop slot ++ fs) := by
  induction hleft : c.capacity - slot generalizing slot with
  | zero => omega
  | succ left ih =>
    have hlt : slot < c.frames.size := by omega
    rw [List.drop_eq_getElem_cons (by rw [Array.length_toList]; exact hlt), List.cons_append]
    refine Reads.frame (next_of_getElem? hc (Array.getElem?_eq_getElem hlt)) ?_
    split
    · rename_i hmore
      exact ih hmore (by omega)
    · rw [List.drop_of_length_le (by rw [Array.length_toList]; omega), List.nil_append]
      exact hrest

end Cursor

/-! ## The parts of a store -/

namespace Store

/-- The chunks of a store by the part they play.  A trace does not end in an empty chunk unless it has
    no frame at all. -/
structure Layout (s : Store) (full : List Chunk) (last : Chunk) (spare : List Chunk) : Prop where
  chunks_eq : s.chunks.toList = full ++ last :: spare
  chunkSize_pos : 0 < s.chunkSize
  linked : Chunk.Linked s.chunkSize 0 full
  last_fits : last.Fits s.chunkSize
  last_next : last.next = none
  spare_fits : ∀ c ∈ spare, c.Fits s.chunkSize
  last_pos : full ≠ [] → 0 < last.frames.size

/-- `getElem?` looks a chunk up by its place in the arena. -/
theorem getElem?_chunks_of_eq {s : Store} {before after : List Chunk} {c : Chunk}
    (h : s.chunks.toList = before ++ c :: after) : s.chunks[before.length]? = some c := by
  rw [← Array.getElem?_toList, h, List.getElem?_append_right (Nat.le_refl _), Nat.sub_self]
  rfl

/-- From the first of some `Chunk.Chained` chunks a cursor reads through them to the last chunk, as
    `readThrough` does. -/
private theorem reads_chained {s : Store} {last : Chunk} {spare : List Chunk}
    (hpos : 0 < s.chunkSize) (hfits : last.Fits s.chunkSize) (hnext : last.next = none)
    (cs : List Chunk) : ∀ before : List Chunk,
      s.chunks.toList = before ++ (cs ++ last :: spare) →
      Chunk.Chained s.chunkSize before.length cs →
      Cursor.Reads ⟨s, some before.length, 0⟩
        (readThrough s.chunkSize (cs.map (·.frames.toList) ++ [last.frames.toList])) := by
  -- `before` are the chunks that have been passed; their number is that of the next chunk
  induction cs with
  | nil =>
    intro before hchunks _
    have hsize : last.frames.size ≤ last.capacity := by
      rw [hfits.capacity_eq]
      exact hfits.size_le
    have hreads := Cursor.reads_last (getElem?_chunks_of_eq hchunks) (fun _ => hnext) hsize 0
    rw [List.map_nil, List.nil_append, readThrough, readThrough, ite_self, List.append_nil]
    exact hreads
  | cons c cs ih =>
    intro before hchunks hchained
    obtain ⟨⟨⟨hcap, hsize⟩, hcnext⟩, hrest⟩ := hchained
    have hget := getElem?_chunks_of_eq hchunks
    rw [List.map_cons, List.cons_append, readThrough, @Array.length_toList _ c.frames]
    by_cases hshort : c.frames.size < s.chunkSize
    · -- Behind a free slot nothing is read, whatever the chunk is linked to
      rw [if_pos hshort, List.append_nil]
      exact Cursor.reads_last hget (fun hfull => by omega) (by omega) 0
    · -- The chunks behind `c` are read from the cursor that `c` is linked to
      have hlen : (before ++ [c]).length = before.length + 1 := by
        rw [List.length_append, List.length_singleton]
      have hreads := ih (before ++ [c]) (by rw [hchunks]; simp) (by rw [hlen]; exact hrest)
      rw [hlen, ← hcnext] at hreads
      rw [if_neg hshort]
      exact Cursor.reads_full hget (by omega) hreads (by omega)

/-- `Store.frames` is what is read through the `Chunk.Chained` chunks and the last one. -/
theorem frames_of_chained {s : Store} {left : List Chunk} {last : Chunk} {spare : List Chunk}
    (hchunks : s.chunks.toList = left ++ last :: spare) (hpos : 0 < s.chunkSize)
    (hchained : Chunk.Chained s.chunkSize 0 left) (hfits : last.Fits s.chunkSize)
    (hnext : last.next = none) : s.frames =
      readThrough s.chunkSize (left.map (·.frames.toList) ++ [last.frames.toList]) := by
  have hreads := reads_chained hpos hfits hnext left [] hchunks hchained
  -- No page has more frames than a chunk has slots
  have hpages : ∀ page ∈ left.map (·.frames.toList) ++ [last.frames.toList],
      page.length ≤ s.chunkSize := by
    intro page hpage
    rcases List.mem_append.mp hpage with hpage | hpage
    · obtain ⟨c, hc, rfl⟩ := List.mem_map.mp hpage
      rw [Array.length_toList]
      exact (Chunk.fits_of_chained hchained c hc).size_le
    · rw [List.mem_singleton.mp hpage, Array.length_toList]
      exact hfits.size_le
  -- The reader has fuel for every slot in the arena
  have hfuel := length_readThrough_le hpages
  have hsize : left.length + 1 ≤ s.chunks.size := by
    rw [← Array.length_toList, hchunks, List.length_append, List.length_cons]
    omega
  rw [List.length_append, List.length_map, List.length_singleton] at hfuel
  exact Cursor.collect_of_reads hreads _ [] (Nat.le_trans hfuel (Nat.mul_le_mul_right _ hsize))

/-- From the first of some `Chunk.Linked` chunks `Store.linkedFrom` leads through them to the last
    chunk. -/
private theorem linkedFrom_linked {s : Store} {last : Chunk} {spare : List Chunk}
    (hnext : last.next = none) (cs : List Chunk) : ∀ (before : List Chunk) (seen : List Nat),
      s.chunks.toList = before ++ (cs ++ last :: spare) →
      Chunk.Linked s.chunkSize before.length cs →
      (s.linkedFrom seen before.length).length = seen.length + cs.length + 1 := by
  -- Induction on the chunks that are still ahead; `before` are those that have been passed
  induction cs with
  | nil =>
    intro before seen hchunks _
    rw [linkedFrom, getElem?_chunks_of_eq hchunks, Option.bind_some, hnext, List.length_reverse,
      List.length_cons]
    rfl
  | cons c cs ih =>
    intro before seen hchunks hlinked
    obtain ⟨⟨_, _, hcnext⟩, hrest⟩ := hlinked
    have hlen : (before ++ [c]).length = before.length + 1 := by
      rw [List.length_append, List.length_singleton]
    -- Links lead forward and stay in the arena, so none is refused
    have hbound : before.length + 1 < s.chunks.size := by
      rw [← Array.length_toList, hchunks]
      simp only [List.length_append, List.length_cons]
      omega
    have hih := ih (before ++ [c]) (before.length :: seen) (by rw [hchunks]; simp)
      (by rw [hlen]; exact hrest)
    rw [hlen] at hih
    rw [linkedFrom, getElem?_chunks_of_eq hchunks, Option.bind_some, hcnext]
    simp only [Nat.lt_add_one, hbound, and_self, if_true]
    rw [hih, List.length_cons, List.length_cons]
    omega

namespace Layout

variable {s : Store} {full : List Chunk} {last : Chunk} {spare : List Chunk}

/-- `readThrough` reads all that lies in the full chunks and the last one. -/
private theorem readThrough_eq (h : s.Layout full last spare) :
    readThrough s.chunkSize (full.map (·.frames.toList) ++ [last.frames.toList]) =
      Chunk.contents full ++ last.frames.toList := by
  rw [readThrough_of_full, List.flatten_append, List.flatten_singleton]
  · rfl
  · intro page hpage
    obtain ⟨c, hc, rfl⟩ := List.mem_map.mp hpage
    rw [Array.length_toList]
    exact Nat.le_of_eq (Chunk.full_of_linked h.linked c hc).2.symm

/-- `Cursor.start` reads what lies in the full chunks and the last one, and stops there. -/
theorem reads (h : s.Layout full last spare) :
    (Cursor.start s).Reads (Chunk.contents full ++ last.frames.toList) := by
  rw [← h.readThrough_eq]
  exact reads_chained h.chunkSize_pos h.last_fits h.last_next full [] h.chunks_eq
    (Chunk.chained_of_linked h.linked)

/-- `Store.frames` is what lies in the full chunks and the last one. -/
theorem frames_eq (h : s.Layout full last spare) :
    s.frames = Chunk.contents full ++ last.frames.toList := by
  rw [← h.readThrough_eq]
  exact frames_of_chained h.chunks_eq h.chunkSize_pos (Chunk.chained_of_linked h.linked)
    h.last_fits h.last_next

/-- `Store.frameCount` counts what lies in the full chunks and the last one. -/
private theorem frameCount_eq (h : s.Layout full last spare) :
    s.frameCount = full.length * s.chunkSize + last.frames.size := by
  rw [frameCount, h.frames_eq, List.length_append, Chunk.length_contents_of_linked h.linked,
    @Array.length_toList _ last.frames]

/-- `Store.chunkCount` counts the full chunks and the last one. -/
theorem chunkCount_eq (h : s.Layout full last spare) : s.chunkCount = full.length + 1 := by
  have hlinked := linkedFrom_linked h.last_next full [] [] h.chunks_eq h.linked
  exact hlinked.trans (by rw [List.length_nil, Nat.zero_add])

/-- `Store.chunkCount` is as many chunks as the frames need, and one if there is no frame. -/
theorem chunkCount_eq_max (h : s.Layout full last spare) :
    s.chunkCount = max 1 ((s.frameCount + s.chunkSize - 1) / s.chunkSize) := by
  have hpos := h.chunkSize_pos
  have hle := h.last_fits.size_le
  rw [h.chunkCount_eq, h.frameCount_eq]
  rcases Nat.eq_zero_or_pos last.frames.size with hzero | hlast
  · -- No frame in the last chunk: it is the first one
    have hnil : full = [] := by
      cases hfull : full with
      | nil => rfl
      | cons c cs =>
        have hlast := h.last_pos (hfull ▸ List.cons_ne_nil c cs)
        omega
    have hdiv : (s.chunkSize - 1) / s.chunkSize = 0 := Nat.div_eq_of_lt (by omega)
    rw [hnil, hzero, List.length_nil, Nat.zero_mul, Nat.zero_add, Nat.zero_add, hdiv]
    rfl
  · -- The last chunk is begun: rounding up counts it
    have hsplit : full.length * s.chunkSize + last.frames.size + s.chunkSize - 1 =
        (last.frames.size - 1) + (full.length + 1) * s.chunkSize := by
      rw [Nat.add_mul, Nat.one_mul]
      omega
    rw [hsplit, Nat.add_mul_div_right _ _ hpos, Nat.div_eq_of_lt (by omega)]
    omega

end Layout

end Store

end StackTrace
