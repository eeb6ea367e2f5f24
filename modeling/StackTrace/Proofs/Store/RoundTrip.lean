import StackTrace.Proofs.Store.Refill

/-!
# From pushes to replay

Frames are pushed onto a new store one after the other, and the finished store replays them in the
same order.  The writer opens a chunk only when there is a frame to put into it, while the reader goes
on to the next chunk as soon as it has read the last slot of one; that the two meet is what is shown
here, also where the last frame takes the last slot of its chunk.

## Key results

- `Builder.Sound.reads_finish`: a cursor on the finished store reads what was written, and then nothing
- `Builder.Sound.full_finish`: every chunk that the cursor has left is full
- `Builder.replay_of_pushes`: the round trip
-/

namespace StackTrace

/-- The `BuildStep` that records an activation. -/
def Recording.step (r : Recording) : BuildStep := .push r.holder r.method r.bci

/-- The `recordings` of steps that are all pushes. -/
private theorem recordings_map_step (rs : List Recording) : recordings (rs.map Recording.step) = rs := by
  induction rs with
  | nil => rfl
  | cons r rs ih =>
    have hhead : (Recording.step r).recording? = some r := rfl
    simp only [recordings, List.map_cons, List.filterMap_cons, hhead]
    exact congrArg (r :: ·) ih

/-- Frames by `StoredFrame.IsOf` show the indices that were to be recorded, with 0 for the
    synchronization entry. -/
private theorem bcis_of_isOf {fs : List StoredFrame} {rs : List Recording}
    (h : List.Forall₂ StoredFrame.IsOf fs rs) :
    fs.map (·.location.bci) = rs.map fun r => max r.bci 0 := by
  induction h with
  | nil => rfl
  | cons hf _ ih => rw [List.map_cons, List.map_cons, ih, hf.bci_eq]

namespace Builder

/-- A cursor on the store that `Builder.finish` leaves reads what was written, and then nothing. -/
theorem Sound.reads_finish {b : Builder} (hb : b.Sound) (m : Memory) :
    (Cursor.start (b.finish m).1).Reads b.written := by
  obtain ⟨full, last, spare, hlayout, -, -, hwritten⟩ := hb.layout_finish m
  have hreads := hlayout.reads
  rw [hwritten] at hreads
  exact hreads

/-- A `Builder.Sound` builder on a store that was not used before leaves no chunk behind its cursor. -/
theorem Sound.size_chunks_of_new {b : Builder} (hb : b.Sound) (hnew : b.reuse = false) :
    b.store.chunks.size = b.current + 1 := by
  obtain ⟨full, last, spare, hshape, -, hend⟩ := hb
  have hsize := hshape.size_eq
  have hcurrent := hshape.current_eq
  rw [(hend hnew).spare_eq, List.length_nil] at hsize
  omega

/-- Every chunk that the cursor has left is full after `Builder.finish`. -/
theorem Sound.full_finish {b : Builder} (hb : b.Sound) (m : Memory) {i : Nat}
    (hi : i < b.current) :
    ∃ c, (b.finish m).1.chunks[i]? = some c ∧ c.capacity = b.store.chunkSize ∧
      c.frames.size = b.store.chunkSize := by
  obtain ⟨full, last, spare, hlayout, hlength, -⟩ := hb.layout_finish m
  have hlt : i < full.length := by omega
  have hfull := Chunk.full_of_linked hlayout.linked full[i] (List.getElem_mem hlt)
  rw [chunkSize_finish] at hfull
  refine ⟨full[i], ?_, hfull⟩
  rw [← Array.getElem?_toList, hlayout.chunks_eq, List.getElem?_append_left hlt]
  exact List.getElem?_eq_getElem hlt

/-- Frames that `Builder.push` puts into a new store, each at an index that a location can hold, are
    replayed by `Cursor.Reads` in the order in which they were pushed, each with all that was known of
    it; behind them a cursor finds nothing.  There are as many chunks as the frames need, all of them
    are linked, and every one but the last is full. -/
theorem replay_of_pushes {chunkSize : Nat} (hpos : 0 < chunkSize) {m : Memory} (hm : m.NeverRefuses)
    {pushed : List Recording} (hfits : ∀ r ∈ pushed, Location.fits r.bci = true) :
    ∃ b₀ m₀ b m₁, start chunkSize m = (.ok b₀, m₀) ∧
      performAll (pushed.map Recording.step) b₀ m₀ = (.ok (), b, m₁) ∧
      let s := (b.finish m₁).1
      (Cursor.start s).Reads s.frames ∧
      List.Forall₂ StoredFrame.IsOf s.frames pushed ∧
      s.frameCount = b.depth ∧ b.depth = pushed.length ∧
      s.chunkCount = max 1 ((pushed.length + chunkSize - 1) / chunkSize) ∧
      s.chunks.size = max 1 ((pushed.length + chunkSize - 1) / chunkSize) ∧
      ∀ i, i + 1 < s.chunks.size →
        ∃ c, s.chunks[i]? = some c ∧ c.capacity = chunkSize ∧ c.frames.size = chunkSize := by
  -- On memory that never refuses the store is opened and every push succeeds
  obtain ⟨b₀, hstart⟩ := start_of_neverRefuses hpos hm
  obtain ⟨hblank, hchunkSize, -⟩ := start_ok hstart
  have hscope := hm.openScope.charged 1 (Chunk.heapBytes chunkSize)
  have hsteps : ∀ step ∈ pushed.map Recording.step, step.Storable := by
    intro step hstep
    obtain ⟨r, hr, rfl⟩ := List.mem_map.mp hstep
    exact hfits r hr
  obtain ⟨b, m₁, hperform, hperformed, -⟩ :=
    performAll_of_storable hscope hsteps hblank.sound (hblank.spent hscope)
  have hsound := hperformed.sound
  have hholds := hperformed.holds hblank m₁
  have hframes := hholds.frames
  rw [recordings_map_step] at hframes
  -- The store was not used before, so the arena ends with the chunk that the cursor stands in
  have hnew : b.reuse = false := by
    rw [hperformed.same.reuse_eq]
    rcases start_cases hstart with ⟨e, he⟩ | ⟨-, reservation, hok⟩
    · cases he
    · cases hok
      rfl
  have hsize : b.store.chunkSize = chunkSize := hperformed.same.chunkSize_eq.trans hchunkSize
  have hcount : b.depth = pushed.length := by
    rw [← hsound.frameCount_finish m₁, hholds.frameCount_eq, recordings_map_step]
  have hcurrent : b.current + 1 = max 1 ((pushed.length + chunkSize - 1) / chunkSize) := by
    rw [hsound.current_eq, hcount, hsize]
  refine ⟨b₀, _, b, m₁, hstart, hperform, ?_, hframes, hsound.frameCount_finish m₁, hcount, ?_,
    ?_, ?_⟩
  -- What is replayed, the chunks that are linked, the chunks of the arena, and that those in front are
  -- full
  · rw [hsound.frames_finish]
    exact hsound.reads_finish m₁
  · rw [hsound.chunkCount_finish, hcurrent]
  · rw [size_chunks_finish, hsound.size_chunks_of_new hnew, hcurrent]
  · intro i hi
    rw [size_chunks_finish, hsound.size_chunks_of_new hnew] at hi
    have hfull := hsound.full_finish m₁ (show i < b.current by omega)
    rw [hsize] at hfull
    exact hfull

/-- `replay_of_pushes` for four frames that fill two chunks of two slots, and no third chunk is begun.
    The first of them was still entering a synchronized method, and the last has the greatest index that
    can be stored. -/
theorem replay_of_pushes_exact_multiple :
    let holder : Class :=
      ⟨⟨0⟩, ⟨"acme/Widget", 0⟩, none, none, none, ⟨0, none, #[]⟩, [], 0⟩
    let running (bci : Int) : Recording :=
      ⟨holder, ⟨⟨0⟩, 0, 0, 0, ⟨"run", 1⟩, ⟨"()V", 2⟩, {}, 65536, []⟩, bci⟩
    let pushed := [running (-1), running 3, running 7, running 65535]
    (Memory.ofLimit none).NeverRefuses ∧ (∀ r ∈ pushed, Location.fits r.bci = true) ∧
      ∃ b₀ m₀ b m₁, start 2 (Memory.ofLimit none) = (.ok b₀, m₀) ∧
        performAll (pushed.map Recording.step) b₀ m₀ = (.ok (), b, m₁) ∧
        (b.finish m₁).1.frames.map (·.location.bci) = [0, 3, 7, 65535] ∧
        (b.finish m₁).1.chunkCount = 2 ∧ (b.finish m₁).1.chunks.size = 2 := by
  intro holder running pushed
  have hm : (Memory.ofLimit none).NeverRefuses := ⟨⟨nofun, by decide⟩, rfl⟩
  have hfits : ∀ r ∈ pushed, Location.fits r.bci = true := by
    simp [pushed, running, Location.fits, Location.maxBci, syncEntryBci]
  obtain ⟨b₀, m₀, b, m₁, hstart, hperform, -, hframes, -, -, hcount, hsize, -⟩ :=
    replay_of_pushes (show 0 < 2 by decide) hm hfits
  have hbcis : (b.finish m₁).1.frames.map (·.location.bci) = [0, 3, 7, 65535] :=
    bcis_of_isOf hframes
  exact ⟨hm, hfits, b₀, m₀, b, m₁, hstart, hperform, hbcis, hcount.trans (by decide),
    hsize.trans (by decide)⟩

end Builder

end StackTrace
