import StackTrace.Proofs.Store.Columns
import StackTrace.Proofs.Store.History

/-!
# The representation of a store

A store is gone through along its links, chunk by chunk, and by a cursor, frame by frame.  Neither way
needs the bound that its definition has: a chunk is linked to the one behind it or to none, and every
operation of a builder keeps that, on new chunks and used ones alike (`Builder.Opened.coherent`).  So
links can be followed unchecked (`Store.follow`), and a cursor comes to an end by itself.

This holds in the middle of a build as well as after it, whatever chunks are left over from an earlier
trace.

## Key results

- `Builder.Opened.coherent`, `Builder.inOrder_finish`: the chunks are in order in every state
- `Store.Coherent.follow_eq`: the links lead through the chunks that are counted, and end there
- `Cursor.exists_reads`: every cursor comes to an end
- `Builder.representation_of_opened`: how a store is represented in every history
-/

namespace StackTrace

/-! ## Chunks in order -/

namespace Chunk

/-- What holds of chunk `id` among `size` chunks. -/
structure InPlace (size id : Nat) (c : Chunk) : Prop where
  /-- It is linked to the chunk behind it, if to any. -/
  next_eq : ∀ n, c.next = some n → n = id + 1 ∧ n < size
  columns : ∃ cols : Columns, cols.Of c

/-- `InPlace` holds of all chunks. -/
def InOrder (cs : Array Chunk) : Prop :=
  ∀ (id : Nat) (c : Chunk), cs[id]? = some c → c.InPlace cs.size id

/-- An empty chunk without a link is `Chunk.InPlace` anywhere. -/
private theorem inPlace_allocate (size id capacity : Nat) (reservation : Reservation) :
    InPlace size id ⟨capacity, #[], none, reservation⟩ :=
  ⟨nofun, _, .allocate capacity reservation⟩

section InPlace

variable {size id : Nat} {c : Chunk}

/-- `Chunk.InPlace` outlasts the growth of the arena. -/
private theorem InPlace.mono (h : c.InPlace size id) {size' : Nat} (hle : size ≤ size') :
    c.InPlace size' id where
  next_eq := by
    intro n hn
    obtain ⟨hid, hlt⟩ := h.next_eq n hn
    exact ⟨hid, Nat.lt_of_lt_of_le hlt hle⟩
  columns := h.columns

/-- `Chunk.write` keeps `Chunk.InPlace`. -/
private theorem InPlace.write (h : c.InPlace size id) {slot : Nat} (hcapacity : slot < c.capacity)
    (hslot : slot ≤ c.frames.size) (f : StoredFrame) : (c.write slot f).InPlace size id where
  next_eq := by
    rw [write_eq]
    exact h.next_eq
  columns := by
    obtain ⟨cols, hcols⟩ := h.columns
    exact ⟨_, hcols.write hcapacity hslot f⟩

/-- A link to the next place keeps `Chunk.InPlace`. -/
private theorem InPlace.link (h : c.InPlace size id) (hlt : id + 1 < size) :
    InPlace size id { c with next := some (id + 1) } where
  next_eq := by
    rintro n ⟨⟩
    exact ⟨rfl, hlt⟩
  columns := by
    obtain ⟨cols, hcols⟩ := h.columns
    exact ⟨_, hcols.link _⟩

/-- Cutting a chunk off keeps `Chunk.InPlace`. -/
private theorem InPlace.cutOff (h : c.InPlace size id) (slot : Nat) :
    InPlace size id { c.clearFrom slot with next := none } where
  next_eq := nofun
  columns := by
    obtain ⟨cols, hcols⟩ := h.columns
    exact ⟨_, (hcols.clearFrom slot).link none⟩

end InPlace

/-- An empty arena is `Chunk.InOrder`. -/
private theorem inOrder_empty : InOrder #[] := by
  intro id c hc
  rw [Array.getElem?_empty] at hc
  cases hc

/-- A change to a chunk that keeps `Chunk.InPlace` keeps `Chunk.InOrder`. -/
private theorem InOrder.modify {cs : Array Chunk} (h : InOrder cs) (i : Nat) {g : Chunk → Chunk}
    (hg : ∀ c, cs[i]? = some c → c.InPlace cs.size i → (g c).InPlace cs.size i) :
    InOrder (cs.modify i g) := by
  intro id c hc
  rw [Array.size_modify]
  rw [Array.getElem?_modify] at hc
  split at hc
  · -- The changed chunk
    rename_i heq
    obtain ⟨d, hd, rfl⟩ := Option.map_eq_some_iff.mp hc
    rw [← heq] at hd ⊢
    exact hg d hd (h i d hd)
  · exact h id c hc

/-- A chunk that is `Chunk.InPlace` at the end keeps `Chunk.InOrder`. -/
private theorem InOrder.push {cs : Array Chunk} (h : InOrder cs) {c : Chunk}
    (hc : c.InPlace (cs.size + 1) cs.size) : InOrder (cs.push c) := by
  intro id d hd
  rw [Array.size_push]
  rw [Array.getElem?_push] at hd
  split at hd
  · -- The new chunk
    rename_i heq
    cases hd
    rw [heq]
    exact hc
  · exact (h id d hd).mono (Nat.le_succ _)

end Chunk

/-! ## What a builder keeps -/

namespace Builder

/-- `Chunk.InOrder`, and on a new store the cursor stands in the last chunk. -/
structure Coherent (b : Builder) : Prop where
  inOrder : Chunk.InOrder b.store.chunks
  last_of_new : b.reuse = false → b.store.chunks.size = b.current + 1

section Coherent

variable {b b' : Builder} {m m' : Memory}

/-- `Builder.write` keeps `Builder.Coherent`. -/
private theorem Coherent.write (hb : b.Coherent) (hstore : b.store.Usable) (hplaced : b.Placed)
    (hslot : b.slot < b.store.chunkSize) (f : StoredFrame) : (b.write f).Coherent where
  inOrder := by
    rw [write_eq]
    refine hb.inOrder.modify b.current fun c hc hplace => ?_
    obtain ⟨d, hd, hle⟩ := hplaced
    -- The chunk that is written is the one that the cursor stands in
    cases hc.symm.trans hd
    have hfits := hstore.fits c (Array.mem_toList_iff.mpr (Array.mem_of_getElem? hc))
    exact hplace.write (hfits.capacity_eq ▸ hslot) hle f
  last_of_new := by
    rw [write_eq, Array.size_modify]
    exact hb.last_of_new

/-- `Builder.advance` to the chunk behind the current one keeps `Chunk.InOrder`. -/
private theorem inOrder_advance (hb : Chunk.InOrder b.store.chunks)
    (hlt : b.current + 1 < b.store.chunks.size) :
    Chunk.InOrder (b.advance (b.current + 1)).store.chunks :=
  hb.modify b.current fun _ _ hplace => hplace.link hlt

/-- A chunk that is put into the arena of a `Builder.Coherent` builder becomes the one behind the
    current chunk. -/
private theorem Coherent.size_eq (hb : b.Coherent) (hplaced : b.Placed)
    (hlast : b.reuse = true → b.store.chunks.size ≤ b.current + 1) :
    b.store.chunks.size = b.current + 1 := by
  cases hreuse : b.reuse with
  | false => exact hb.last_of_new hreuse
  | true =>
    obtain ⟨c, hc, -⟩ := hplaced
    have hlt := (Array.getElem?_eq_some_iff.mp hc).1
    have hle := hlast hreuse
    omega

/-- However `Builder.expand` goes, the builder is `Builder.Coherent`. -/
private theorem Coherent.expand (hb : b.Coherent) (hplaced : b.Placed)
    {r : Except (Failure TraceError) Unit} (h : b.expand m = (r, b', m')) : b'.Coherent := by
  rcases expand_cases h with ⟨-, rfl⟩ | ⟨-, hreuse, hlt, rfl⟩ | ⟨-, hlast, reservation, rfl⟩
  · exact hb
  · exact ⟨inOrder_advance hb.inOrder hlt, fun hnew => absurd (hreuse.symm.trans hnew) (by decide)⟩
  · -- The new chunk gets the number behind the current one
    have hsize := hb.size_eq hplaced hlast
    have hadded : Chunk.InOrder (b.addChunk ⟨b.store.chunkSize, #[], none, reservation⟩).store.chunks :=
      hb.inOrder.push (Chunk.inPlace_allocate _ _ _ reservation)
    rw [hsize]
    refine ⟨inOrder_advance hadded ?_, fun _ => ?_⟩
    · rw [addChunk_eq, Array.size_push, hsize]
      exact Nat.lt_succ_self _
    · rw [advance_eq, addChunk_eq, Array.size_modify, Array.size_push, hsize]

/-- However `Builder.push` goes, the builder is `Builder.Coherent`. -/
private theorem Coherent.push (hb : b.Coherent) (hstore : b.store.Usable) (hplaced : b.Placed)
    {holder : Class} {method : Method} {bci : Int} {r : Except (Failure TraceError) Unit}
    (h : b.push m holder method bci = (r, b', m')) : b'.Coherent := by
  rcases push_cases h with ⟨-, rfl⟩ | ⟨-, f, d, -, rfl, ⟨hslot, rfl⟩ | ⟨-, m'', hexpand⟩⟩
  · exact hb
  · exact hb.write hstore hplaced hslot f
  · -- The cursor has moved to a chunk with a free slot
    obtain ⟨husable, hslot⟩ := usable_expand hstore hexpand
    exact (hb.expand hplaced hexpand).write husable (placed_expand hplaced hexpand) (hslot rfl) f

/-- However `Builder.markHiddenTop` goes, the builder is `Builder.Coherent`. -/
private theorem Coherent.markHiddenTop (hb : b.Coherent) {r : Except (Failure TraceError) Unit}
    (h : b.markHiddenTop m = (r, b', m')) : b'.Coherent := by
  rcases markHiddenTop_cases h with ⟨-, rfl⟩ | ⟨-, -, rfl⟩ | ⟨-, marker, -, rfl⟩
  · exact hb
  · exact hb
  · exact ⟨hb.inOrder, hb.last_of_new⟩

/-- `Builder.finish` keeps `Chunk.InOrder`. -/
theorem inOrder_finish (hb : Chunk.InOrder b.store.chunks) (m : Memory) :
    Chunk.InOrder (b.finish m).1.chunks := by
  cases hreuse : b.reuse with
  | true =>
    rw [finish_of_reuse hreuse]
    exact hb.modify b.current fun _ _ hplace => hplace.cutOff b.slot
  | false =>
    rw [finish_of_new hreuse]
    exact hb

/-- `Builder.start` is `Builder.Coherent`. -/
private theorem coherent_start {chunkSize : Nat} (h : start chunkSize m = (.ok b, m')) : b.Coherent := by
  rcases start_cases h with ⟨e, he⟩ | ⟨-, reservation, hok⟩
  · cases he
  · cases hok
    exact ⟨Chunk.inOrder_empty.push (Chunk.inPlace_allocate _ _ _ reservation), fun _ => rfl⟩

/-- Throughout a `Builder.Opened` history the chunks are in order. -/
theorem Opened.coherent (h : b.Opened) : b.Coherent := by
  induction h with
  | start h => exact coherent_start h
  | step h step m ih =>
    cases step with
    | push holder method bci => exact ih.push h.usable h.placed rfl
    | expand => exact ih.expand h.placed rfl
    | markHiddenTop => exact ih.markHiddenTop rfl
  | reopen h m m' ih => exact ⟨inOrder_finish ih.inOrder m, nofun⟩

end Coherent

end Builder

/-! ## Following the links -/

namespace Store

/-- The chunk that chunk `id` is linked to. -/
def link? (s : Store) (id : Nat) : Option Nat := (s.chunks[id]?).bind (·.next)

/-- The chunk that so many `Store.link?` lead to from the first chunk, if there are as many. -/
def follow (s : Store) : (links : Nat) → Option Nat
  | 0 => some 0
  | links + 1 => (s.follow links).bind s.link?

/-- `Store.Usable`, with its chunks in order. -/
structure Coherent (s : Store) : Prop where
  usable : s.Usable
  inOrder : Chunk.InOrder s.chunks

section Links

variable {s : Store}

/-- A `Store.Usable` store has a chunk. -/
private theorem Usable.size_pos (hs : s.Usable) : 0 < s.chunks.size := by
  rw [← Array.length_toList]
  exact List.length_pos_of_ne_nil hs.chunks_ne_nil

/-- Every link that `Store.follow` follows leads one chunk further, and never out of the arena. -/
private theorem Coherent.eq_of_follow (hs : s.Coherent) {links id : Nat} (h : s.follow links = some id) :
    id = links ∧ links < s.chunks.size := by
  induction links generalizing id with
  | zero =>
    cases h
    exact ⟨rfl, hs.usable.size_pos⟩
  | succ links ih =>
    obtain ⟨before, hbefore, hlink⟩ := Option.bind_eq_some_iff.mp h
    obtain ⟨c, hc, hnext⟩ := Option.bind_eq_some_iff.mp hlink
    obtain ⟨rfl, -⟩ := ih hbefore
    obtain ⟨rfl, hlt⟩ := (hs.inOrder before c hc).next_eq id hnext
    exact ⟨rfl, hlt⟩

/-- Behind the end `Store.follow` finds no links. -/
private theorem follow_eq_none_of_le {links links' : Nat} (h : s.follow links = none) (hle : links ≤ links') :
    s.follow links' = none := by
  induction hle with
  | refl => exact h
  | step _ ih => rw [follow, ih, Option.bind_none]

/-- The chunks that are counted from chunk `id` on are those that the links lead to from there. -/
private theorem Coherent.exists_follow_linkedFrom (hs : s.Coherent) (seen : List Nat) (id : Nat)
    (h : s.follow id = some id) : ∃ links, (s.linkedFrom seen id).length = seen.length + links + 1 ∧
      s.follow (id + links) = some (id + links) ∧ s.follow (id + links + 1) = none := by
  fun_induction s.linkedFrom seen id with
  | case1 seen id hnone =>
    -- No link leads on
    refine ⟨0, by simp, h, ?_⟩
    rw [Nat.add_zero, follow, h, Option.bind_some, link?, hnone]
  | case2 seen id next hnext hguard ih =>
    have hfollow : s.follow (id + 1) = some next := by
      rw [follow, h, Option.bind_some, link?, hnext]
    obtain ⟨rfl, -⟩ := hs.eq_of_follow hfollow
    obtain ⟨links, hlength, hat, hend⟩ := ih hfollow
    -- One link more, and the same end
    have hshift : id + (links + 1) = id + 1 + links := by omega
    refine ⟨links + 1, ?_, ?_, ?_⟩
    · rw [hlength, List.length_cons]
      omega
    · rw [hshift]
      exact hat
    · rw [hshift]
      exact hend
  | case3 seen id next hnext hguard =>
    -- A link that is refused would lead backwards or out of the arena
    have hfollow : s.follow (id + 1) = some next := by
      rw [follow, h, Option.bind_some, link?, hnext]
    obtain ⟨rfl, hlt⟩ := hs.eq_of_follow hfollow
    exact absurd ⟨Nat.lt_succ_self id, hlt⟩ hguard

/-- `Store.follow` comes to the last of the chunks that are counted, and no further. -/
private theorem Coherent.exists_last (hs : s.Coherent) : ∃ last, s.chunkCount = last + 1 ∧
    s.follow last = some last ∧ s.follow (last + 1) = none := by
  obtain ⟨last, hcount, hat, hend⟩ := hs.exists_follow_linkedFrom [] 0 rfl
  rw [Nat.zero_add] at hat hend
  rw [List.length_nil, Nat.zero_add] at hcount
  exact ⟨last, hcount, hat, hend⟩

/-- `Store.follow` leads through the chunks that are counted, one after the other, and ends there. -/
theorem Coherent.follow_eq (hs : s.Coherent) (links : Nat) :
    s.follow links = if links < s.chunkCount then some links else none := by
  obtain ⟨last, hcount, hat, hend⟩ := hs.exists_last
  rw [hcount]
  split
  · rename_i hlt
    cases hlinks : s.follow links with
    | some id => rw [(hs.eq_of_follow hlinks).1]
    | none =>
      -- An earlier end would be the end for good
      rw [follow_eq_none_of_le hlinks (Nat.le_of_lt_succ hlt)] at hat
      cases hat
  · rename_i hle
    exact follow_eq_none_of_le hend (Nat.le_of_not_lt hle)

/-- `Store.chunkCount` is no more than there are chunks in the arena. -/
private theorem Coherent.chunkCount_le (hs : s.Coherent) : s.chunkCount ≤ s.chunks.size := by
  obtain ⟨last, hcount, hat, -⟩ := hs.exists_last
  rw [hcount]
  exact (hs.eq_of_follow hat).2

end Links

end Store

/-! ## Reading to the end -/

namespace Cursor

/-- `Cursor.next` finds no frame and stays where it is, or reads the frame under it and moves past
    it. -/
theorem next_cases (c : Cursor) :
    (c.frame? = none ∧ c.next = (none, c)) ∨
    ∃ id chunk f, c.chunk = some id ∧ c.store.chunks[id]? = some chunk ∧
      chunk.frames[c.slot]? = some f ∧ c.frame? = some f ∧ c.next = (some f,
        if c.slot + 1 < chunk.capacity then ⟨c.store, some id, c.slot + 1⟩
        else ⟨c.store, chunk.next, 0⟩) := by
  obtain ⟨s, chunk, slot⟩ := c
  cases chunk with
  | none => exact .inl ⟨rfl, rfl⟩
  | some id =>
    cases hchunk : s.chunks[id]? with
    | none => exact .inl (by simp [next, frame?, hchunk])
    | some chunk =>
      cases hf : chunk.frames[slot]? with
      | none => exact .inl (by simp [next, frame?, hchunk, hf])
      | some f =>
        refine .inr ⟨id, chunk, f, rfl, hchunk, hf, ?_, next_of_getElem? hchunk hf⟩
        simp [frame?, hchunk, hf]

/-- `Cursor.next` reads the frame under the cursor. -/
private theorem fst_next (c : Cursor) : c.next.1 = c.frame? := by
  rcases c.next_cases with ⟨hnone, hnext⟩ | ⟨_, _, _, -, -, -, hsome, hnext⟩
  · rw [hnone, hnext]
  · rw [hsome, hnext]

/-- `Cursor.hasMore` holds exactly if `Cursor.next` finds a frame. -/
private theorem hasMore_eq (c : Cursor) : c.hasMore = c.next.1.isSome := by
  rw [hasMore, fst_next]

/-- `Cursor.next` stays where it is if it finds no frame. -/
private theorem next_of_none {c : Cursor} (h : c.next.1 = none) : c.next.2 = c := by
  rcases c.next_cases with ⟨-, hnext⟩ | ⟨_, _, _, -, -, -, -, hnext⟩
  · rw [hnext]
  · rw [hnext] at h
    cases h

/-- The cursor after `Cursor.next` was asked so often. -/
def after (c : Cursor) : (times : Nat) → Cursor
  | 0 => c
  | times + 1 => (c.after times).next.2

/-- A cursor that finds no frame finds none later, however often `Cursor.next` is called. -/
private theorem after_of_none {c : Cursor} (h : c.next.1 = none) (times : Nat) : c.after times = c := by
  induction times with
  | zero => rfl
  | succ times ih => rw [after, ih, next_of_none h]

/-- The number of slots from the cursor to the end of the arena. -/
def room (c : Cursor) : Nat :=
  match c.chunk with
  | none => 0
  | some id => (c.store.chunks.size - id) * c.store.chunkSize - c.slot

/-- `Cursor.room` is no more than the slots of the arena. -/
private theorem room_le (c : Cursor) : c.room ≤ c.store.chunks.size * c.store.chunkSize := by
  unfold room
  split
  · exact Nat.zero_le _
  · exact Nat.le_trans (Nat.sub_le _ _) (Nat.mul_le_mul_right _ (Nat.sub_le _ _))

/-- With every frame that `Cursor.next` reads, a cursor comes closer to the end of the arena, and does
    not leave it. -/
private theorem room_next {c c' : Cursor} {f : StoredFrame} (hs : c.store.Coherent)
    (h : c.next = (some f, c')) : c'.store = c.store ∧ c'.room < c.room ∧
      ∀ id, c'.chunk = some id → id < c.store.chunks.size := by
  rcases c.next_cases with ⟨-, hnext⟩ | ⟨id, chunk, f', hid, hchunk, hf, -, hnext⟩
  · cases hnext.symm.trans h
  · have hlt : id < c.store.chunks.size := (Array.getElem?_eq_some_iff.mp hchunk).1
    have hslot : c.slot < chunk.frames.size := (Array.getElem?_eq_some_iff.mp hf).1
    obtain ⟨hcapacity, hsize⟩ :=
      hs.usable.fits chunk (Array.mem_toList_iff.mpr (Array.mem_of_getElem? hchunk))
    -- The chunk counts for as many slots as it has
    obtain ⟨behind, hbehind⟩ : ∃ behind, c.store.chunks.size - id = behind + 1 :=
      ⟨c.store.chunks.size - id - 1, by omega⟩
    have hroom : c.room = behind * c.store.chunkSize + c.store.chunkSize - c.slot := by
      simp only [room, hid, hbehind, Nat.add_mul, Nat.one_mul]
    cases hnext.symm.trans h
    rw [hroom]
    split
    -- The next slot is in the same chunk
    · refine ⟨rfl, ?_, ?_⟩
      · simp only [room, hbehind, Nat.add_mul, Nat.one_mul]
        omega
      · rintro _ ⟨⟩
        exact hlt
    · -- The last slot has been read
      refine ⟨rfl, ?_, fun next hnext => ((hs.inOrder id chunk hchunk).next_eq next hnext).2⟩
      cases hlink : chunk.next with
      | none =>
        simp only [room]
        omega
      | some next =>
        obtain ⟨rfl, -⟩ := (hs.inOrder id chunk hchunk).next_eq next hlink
        have hrest : c.store.chunks.size - (id + 1) = behind := by omega
        simp only [room, hrest]
        omega

/-- A cursor that was put at the beginning by `Cursor.start` stands in the arena for as long as it
    stands anywhere. -/
private theorem lt_size_of_after {s : Store} (hs : s.Coherent) (times : Nat) :
    ((start s).after times).store = s ∧
      ∀ id, ((start s).after times).chunk = some id → id < s.chunks.size := by
  -- Induction on the number of frames that were asked for
  induction times with
  | zero =>
    refine ⟨rfl, ?_⟩
    rintro id ⟨⟩
    exact hs.usable.size_pos
  | succ times ih =>
    obtain ⟨hstore, hid⟩ := ih
    rw [after]
    obtain ⟨frame, c', hnext⟩ : ∃ frame c', ((start s).after times).next = (frame, c') := ⟨_, _, rfl⟩
    cases frame with
    | none =>
      rw [next_of_none (by rw [hnext])]
      exact ⟨hstore, hid⟩
    | some f =>
      obtain ⟨hstore', -, hinside⟩ := room_next (hstore.symm ▸ hs) hnext
      rw [hnext]
      rw [hstore] at hstore' hinside
      exact ⟨hstore', hinside⟩

/-- Every cursor comes to an end by `Cursor.Reads`, and reads no more frames than there are slots before
    it. -/
theorem exists_reads {c : Cursor} (hs : c.store.Coherent) :
    ∃ fs, c.Reads fs ∧ fs.length ≤ c.room := by
  -- Induction on the slots that are left
  induction hroom : c.room using Nat.strongRecOn generalizing c with
  | ind room ih =>
    obtain ⟨frame, c', hnext⟩ : ∃ frame c', c.next = (frame, c') := ⟨_, _, rfl⟩
    cases frame with
    | none => exact ⟨[], .done (by rw [hnext]), Nat.zero_le _⟩
    | some f =>
      obtain ⟨hstore, hcloser, -⟩ := room_next hs hnext
      obtain ⟨fs, hreads, hlength⟩ := ih c'.room (hroom ▸ hcloser) (hstore ▸ hs) rfl
      refine ⟨f :: fs, .frame hnext hreads, ?_⟩
      rw [List.length_cons]
      omega

/-- What `Cursor.next` finds in the chunk that the cursor stands in is what the columns of the chunk
    say. -/
private theorem next_of_columns {c : Cursor} {id : Nat} {chunk : Chunk} {cols : Columns}
    (hid : c.chunk = some id) (hchunk : c.store.chunks[id]? = some chunk) (hcols : cols.Of chunk) :
    c.hasMore = (cols.holder? c.slot).isSome ∧ c.next.1 = cols.read? c.slot := by
  have hframe : c.next.1 = chunk.frames[c.slot]? := by
    rw [fst_next, frame?, hid]
    simp only [Option.bind_eq_bind, Option.bind_some, hchunk]
  refine ⟨?_, ?_⟩
  · rw [hasMore_eq, hframe, hcols.holder?_eq, Option.isSome_map]
  · rw [hframe, hcols.read?_eq]

end Cursor

/-! ## The representation -/

/-- What holds of the representation of a store. -/
structure Store.Represented (s : Store) : Prop where
  /-- A chunk is linked to the chunk behind it, which is in the arena, or to none. -/
  next_eq : ∀ (id n : Nat) (c : Chunk), s.chunks[id]? = some c → c.next = some n →
    n = id + 1 ∧ n < s.chunks.size
  /-- A slot has a class exactly if it has a name. -/
  columns : ∀ c ∈ s.chunks.toList, (∃ cols : Columns, cols.Of c) ∧ ∀ cols : Columns, cols.Of c →
    ∀ slot, (cols.holder? slot).isSome = (cols.name? slot).isSome
  /-- The links lead from the first chunk through as many chunks as are counted, to each once, and end. -/
  follow_eq : ∀ links, s.follow links = if links < s.chunkCount then some links else none
  chunkCount_le : s.chunkCount ≤ s.chunks.size
  /-- Wherever a cursor stands, it comes to an end. -/
  ends : ∀ c : Cursor, c.store = s →
    ∃ fs, c.Reads fs ∧ fs.length ≤ s.chunks.size * s.chunkSize
  /-- The trace is what a cursor reads from the beginning to its end. -/
  reads : (Cursor.start s).Reads s.frames
  /-- On its way a cursor stands in a chunk of the arena, until it has left the last one. -/
  inside : ∀ times id, ((Cursor.start s).after times).chunk = some id → id < s.chunks.size
  /-- A slot counts as occupied for its class, and is read for the name as well. -/
  cursor_eq : ∀ (c : Cursor) (id : Nat) (chunk : Chunk) (cols : Columns), c.store = s →
    c.chunk = some id → s.chunks[id]? = some chunk → cols.Of chunk →
    c.hasMore = (cols.holder? c.slot).isSome ∧ c.next.1 = cols.read? c.slot
  hasMore_iff : ∀ c : Cursor, c.store = s → (c.hasMore = true ↔ ∃ f, c.next.1 = some f)
  /-- A cursor that has come to the end stays there. -/
  ended : ∀ c : Cursor, c.store = s → c.next.1 = none → ∀ times, (c.after times).next.1 = none

/-- A `Store.Coherent` store is `Store.Represented`. -/
private theorem Store.Coherent.represented {s : Store} (hs : s.Coherent) : s.Represented where
  next_eq := fun id n c hc hn => (hs.inOrder id c hc).next_eq n hn
  columns := by
    intro c hc
    obtain ⟨id, hid⟩ := List.mem_iff_getElem?.mp hc
    rw [Array.getElem?_toList] at hid
    exact ⟨(hs.inOrder id c hid).columns, fun cols hcols => hcols.isSome_holder?⟩
  follow_eq := hs.follow_eq
  chunkCount_le := hs.chunkCount_le
  ends := by
    rintro c rfl
    obtain ⟨fs, hreads, hlength⟩ := Cursor.exists_reads hs
    exact ⟨fs, hreads, Nat.le_trans hlength c.room_le⟩
  reads := by
    obtain ⟨fs, hreads, hlength⟩ := Cursor.exists_reads (c := Cursor.start s) hs
    have hfuel := Nat.le_trans hlength (Cursor.start s).room_le
    have hframes : s.frames = fs := Cursor.collect_of_reads hreads _ [] hfuel
    rw [hframes]
    exact hreads
  inside := fun times => (Cursor.lt_size_of_after hs times).2
  cursor_eq := by
    rintro c id chunk cols rfl hid hchunk hcols
    exact Cursor.next_of_columns hid hchunk hcols
  hasMore_iff := by
    intro c _
    rw [c.hasMore_eq, Option.isSome_iff_exists]
  ended := by
    intro c _ hnone times
    rw [Cursor.after_of_none hnone]
    exact hnone

namespace Builder

/-- In every state of every `Builder.Opened` history of a store, also in the middle of a build and after
    steps that failed, the cursor of the builder stands in a chunk of the arena, on a slot of it or
    behind the last one, and the store is `Store.Represented`.  So is every store that `Builder.finish`
    leaves. -/
theorem representation_of_opened {b : Builder} (h : b.Opened) :
    b.current < b.store.chunks.size ∧ b.slot ≤ b.store.chunkSize ∧ b.store.Represented ∧
      ∀ m, (b.finish m).1.Represented := by
  have hcoherent := h.coherent
  obtain ⟨c, hc, hslot⟩ := h.placed
  have hfits := h.usable.fits c (Array.mem_toList_iff.mpr (Array.mem_of_getElem? hc))
  refine ⟨(Array.getElem?_eq_some_iff.mp hc).1, Nat.le_trans hslot hfits.size_le,
    Store.Coherent.represented ⟨h.usable, hcoherent.inOrder⟩, fun m => ?_⟩
  exact Store.Coherent.represented ⟨usable_finish h.usable m, inOrder_finish hcoherent.inOrder m⟩

/-- A step that pushes an activation of one method. -/
private def callAt (bci : Int) : BuildStep :=
  .push ⟨⟨0⟩, ⟨"acme/Widget", 0⟩, none, none, none, ⟨0, none, #[]⟩, [], 0⟩
    ⟨⟨0⟩, 0, 0, 0, ⟨"run", 1⟩, ⟨"()V", 2⟩, {}, 1, []⟩ bci

/-- `representation_of_opened` where a store of five frames in chunks of two slots is filled again.
    After one push, the links still lead through all chunks, and the frames of the earlier trace are
    read behind the new one.  When the store is finished then, the first chunk is left of the trace, and
    all three stay in the arena. -/
theorem representation_of_opened_refilling :
    ∃ (b : Builder) (m : Memory), b.Opened ∧ b.slot = 1 ∧ b.slot ≤ b.store.chunkSize ∧
      b.store.Represented ∧ b.store.follow 2 = some 2 ∧ b.store.follow 3 = none ∧
      b.store.frames.map (·.location.bci) = [7, 1, 2, 3, 4] ∧
      (b.finish m).1.Represented ∧ (b.finish m).1.follow 1 = none ∧
      (b.finish m).1.chunks.size = 3 := by
  obtain ⟨s, m, hbuild⟩ : ∃ s m, Store.build 2 [callAt 0, callAt 1, callAt 2, callAt 3, callAt 4]
      (Memory.ofLimit none) = (.ok s, m) := ⟨_, _, rfl⟩
  obtain ⟨b₀, m₀, hopened₀, hs⟩ := Store.finished_of_build hbuild
  obtain ⟨b, hb⟩ : ∃ b, b = ((callAt 7).perform (reopen s m).1 m).2.1 := ⟨_, rfl⟩
  have hopened : b.Opened := by
    rw [hb, hs]
    exact (hopened₀.reopen m₀ m).step _ _
  obtain ⟨-, hslot, hrepresented, hfinished⟩ := representation_of_opened hopened
  refine ⟨b, m, hopened, ?_, hslot, hrepresented, ?_, ?_, ?_, hfinished m, ?_, ?_⟩
  all_goals
    cases hbuild
    subst hb
    decide +kernel

end Builder

end StackTrace
