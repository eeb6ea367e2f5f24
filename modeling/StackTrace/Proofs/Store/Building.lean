import StackTrace.Proofs.Store.Shape

/-!
# What a builder has written

Each push appends one frame to what is written, whatever the store held before, and `finish` gives
back a store with exactly the written frames.

## Key results

- `Builder.Sound.push_ok`: a push that succeeds appends the frame it records
- `Builder.push_error`: a push that fails leaves the builder as it was
- `Builder.blank_reopen`: nothing of a store that is filled again counts as written
- `Builder.Sound.layout_finish`: the finished store is laid out properly and holds what was written
-/

namespace StackTrace

namespace Builder

/-! ## Recording an activation -/

/-- What a `Builder.push` that succeeds has done. -/
structure Pushed (b b' : Builder) (holder : Class) (method : Method) (bci : Int) : Prop where
  sound : b'.Sound
  written_eq : ∃ f : StoredFrame, f.Records holder method bci ∧ b'.written = b.written ++ [f]
  depth_eq : b'.depth = b.depth + 1
  same : b.SameStore b'
  hiddenTop_eq : b'.store.hiddenTop = b.store.hiddenTop

/-- A `Builder.Sound` builder has counted the frames it has written. -/
theorem Sound.length_written {b : Builder} (h : b.Sound) : b.written.length = b.depth := by
  obtain ⟨full, last, spare, hshape, -⟩ := h
  exact hshape.length_written

/-- A `Builder.push` that succeeds appends the frame it records. -/
theorem Sound.push_ok {b b' : Builder} {m m' : Memory} {holder : Class} {method : Method}
    {bci : Int} (hb : b.Sound) (h : b.push m holder method bci = (.ok (), b', m')) :
    b.Pushed b' holder method bci := by
  rcases push_cases h with ⟨⟨e, he⟩, -⟩ | ⟨-, f, d, hrecords, rfl, hmoved⟩
  · cases he
  · -- Wherever the cursor has been moved to, it stands on a slot, and nothing has been written
    have hready : d.Ready ∧ d.written = b.written ∧ b.SameStore d ∧
        d.store.hiddenTop = b.store.hiddenTop := by
      rcases hmoved with ⟨hslot, rfl⟩ | ⟨hfull, m'', hexpand⟩
      · exact ⟨hb.ready hslot, rfl, SameStore.refl d, rfl⟩
      · obtain ⟨full, last, spare, hshape, -, hend⟩ := hb
        have hslot : b.slot = b.store.chunkSize :=
          Nat.le_antisymm (Nat.le_trans hshape.slot_le hshape.last_fits.size_le) hfull
        exact hshape.expand_ok hslot hend hexpand
    obtain ⟨hready, hwritten, hsame, hhidden⟩ := hready
    -- From there the frame is written, and that is the one change to what is written
    obtain ⟨hsound, happend⟩ := hready.write f
    rw [hwritten] at happend
    refine ⟨hsound, ⟨f, hrecords, happend⟩, ?_,
      ⟨hsame.chunkSize_eq, hsame.reuse_eq, hsame.verifier_eq⟩, hhidden⟩
    rw [← hsound.length_written, happend, List.length_append, hb.length_written,
      List.length_singleton]

/-- A `Builder.push` that fails leaves the builder as it was. -/
theorem push_error {b b' : Builder} {m m' : Memory} {holder : Class} {method : Method} {bci : Int}
    {e : Failure TraceError} (h : b.push m holder method bci = (.error e, b', m')) : b' = b := by
  rcases push_cases h with ⟨-, rfl⟩ | ⟨he, -⟩
  · rfl
  · cases he

/-! ## The hidden-frame marker -/

/-- The marker of a store has no part in its frames, so setting it keeps `Builder.Sound`. -/
theorem Sound.withHiddenTop {b : Builder} (hb : b.Sound) (marker : Option BoxedBool) :
    Sound { b with store := { b.store with hiddenTop := marker } } := by
  obtain ⟨full, last, spare, hshape, hpos, hend⟩ := hb
  obtain ⟨hchunks, hsize, hlinked, hlast, hspare, hcurrent, hslot, hdepth⟩ := hshape
  refine ⟨full, last, spare, ⟨hchunks, hsize, hlinked, hlast, hspare, hcurrent, hslot, hdepth⟩,
    hpos, fun hfresh => ?_⟩
  obtain ⟨hnil, heq, hnext⟩ := hend hfresh
  exact ⟨hnil, heq, hnext⟩

/-- What `Builder.markHiddenTop` has done. -/
structure Marked (b b' : Builder) : Prop where
  sound : b'.Sound
  written_eq : b'.written = b.written
  depth_eq : b'.depth = b.depth
  same : b.SameStore b'
  hidden_eq : b'.store.hasHiddenTop = true

/-- A `Builder.markHiddenTop` that succeeds sets the marker and nothing else. -/
theorem Sound.markHiddenTop_ok {b b' : Builder} {m m' : Memory} (hb : b.Sound)
    (h : b.markHiddenTop m = (.ok (), b', m')) : b.Marked b' := by
  rcases markHiddenTop_cases h with ⟨⟨e, he⟩, -⟩ | ⟨-, hhidden, rfl⟩ | ⟨-, marker, hvalue, rfl⟩
  · exact nomatch he
  · exact ⟨hb, rfl, rfl, SameStore.refl b', hhidden⟩
  · exact ⟨hb.withHiddenTop _, rfl, rfl, ⟨rfl, rfl, rfl⟩, hvalue⟩

end Builder

/-! ## Beginning and finishing -/

/-- A store that `Builder.reopen` can fill: it has a chunk, and whatever lies in its chunks, they have
    the capacity they should. -/
structure Store.Usable (s : Store) : Prop where
  chunkSize_pos : 0 < s.chunkSize
  chunks_ne_nil : s.chunks.toList ≠ []
  fits : ∀ c ∈ s.chunks.toList, c.Fits s.chunkSize

namespace Builder

/-- A builder that has written nothing yet and has its scope in force, as `Builder.start` and
    `Builder.reopen` leave it. -/
structure Blank (b : Builder) : Prop where
  sound : b.Sound
  written_eq : b.written = []
  depth_eq : b.depth = 0
  current_eq : b.current = 0
  hiddenTop_eq : b.store.hiddenTop = none
  verifier_eq : b.verifier = ⟨true⟩

/-- `Builder.reopen` is `Builder.Blank`: whatever lies in the store that is filled again, nothing of it
    counts as written. -/
theorem blank_reopen {s : Store} (hs : s.Usable) (m : Memory) : (reopen s m).1.Blank := by
  obtain ⟨hpos, hne, hfits⟩ := hs
  -- The cursor is put into the first chunk, and all others are left over
  obtain ⟨c, cs, hchunks⟩ := List.exists_cons_of_ne_nil hne
  rw [hchunks] at hfits
  have hshape : (reopen s m).1.Shape [] c cs :=
    ⟨hchunks, hpos, trivial, hfits c List.mem_cons_self,
      fun d hd => hfits d (List.mem_cons_of_mem c hd), rfl, Nat.zero_le _, (Nat.zero_mul _).symm⟩
  refine ⟨⟨[], c, cs, hshape, fun h => absurd rfl h, fun h => nomatch h⟩, ?_, rfl, rfl, rfl, rfl⟩
  exact List.eq_nil_of_length_eq_zero hshape.length_written

/-- A builder by `Builder.start` has one chunk, of the capacity asked for. -/
theorem start_ok {chunkSize : Nat} {m m' : Memory} {b : Builder}
    (h : start chunkSize m = (.ok b, m')) :
    b.Blank ∧ b.store.chunkSize = chunkSize ∧ b.store.chunks.size = 1 := by
  rcases start_cases h with ⟨e, he⟩ | ⟨hpos, reservation, hok⟩
  · cases he
  · cases hok
    have hfits := Chunk.fits_empty chunkSize reservation
    refine ⟨⟨⟨[], _, [], ⟨rfl, hpos, trivial, hfits, ?_, rfl, Nat.le_refl 0, ?_⟩, fun h => absurd rfl h,
      fun _ => ⟨rfl, rfl, rfl⟩⟩, rfl, rfl, rfl, rfl, rfl⟩, rfl, rfl⟩
    · intro c hc
      cases hc
    · exact (Nat.zero_mul _).symm

/-- `Builder.finish` leaves a store that is laid out properly, with what was written in front of the
    cursor. -/
theorem Sound.layout_finish {b : Builder} (hb : b.Sound) (m : Memory) :
    ∃ full last spare, (b.finish m).1.Layout full last spare ∧ full.length = b.current ∧
      last.frames.size = b.slot ∧ Chunk.contents full ++ last.frames.toList = b.written := by
  obtain ⟨full, last, spare, hshape, hpos, hend⟩ := hb
  cases hreuse : b.reuse with
  | true =>
    -- What is left behind the cursor is cut off
    have hsize : (last.frames.take b.slot).size = b.slot := by
      rw [Array.take_eq_extract, Array.size_extract]
      have hle := hshape.slot_le
      omega
    rw [finish_of_reuse hreuse]
    refine ⟨full, { last.clearFrom b.slot with next := none }, spare,
      ⟨hshape.toList_modify _, hshape.chunkSize_pos, hshape.linked,
        ⟨hshape.last_fits.capacity_eq, ?_⟩, rfl, hshape.spare_fits, fun hne => ?_⟩,
      hshape.current_eq.symm, hsize, ?_⟩
    · have hle := hshape.slot_le
      have hfits := hshape.last_fits.size_le
      simp only [Chunk.clearFrom, hsize]
      omega
    · simp only [Chunk.clearFrom, hsize]
      exact hpos hne
    · have htake : (last.frames.take b.slot).toList = last.frames.toList.take b.slot := by
        simp
      rw [hshape.written_eq, Chunk.clearFrom, htake]
  | false =>
    -- Of a new store there is nothing to cut off
    obtain ⟨hspare, hsize, hnext⟩ := hend hreuse
    rw [finish_of_new hreuse]
    refine ⟨full, last, spare, ⟨hshape.chunks_eq, hshape.chunkSize_pos, hshape.linked,
      hshape.last_fits, hnext, hshape.spare_fits, fun hne => ?_⟩, hshape.current_eq.symm, hsize, ?_⟩
    · rw [hsize]
      exact hpos hne
    · rw [hshape.written_eq, List.take_of_length_le]
      exact Nat.le_of_eq (Array.length_toList.trans hsize)

/-- The frames that `Builder.finish` leaves are those that were written. -/
theorem Sound.frames_finish {b : Builder} (hb : b.Sound) (m : Memory) :
    (b.finish m).1.frames = b.written := by
  obtain ⟨full, last, spare, hlayout, -, -, hwritten⟩ := hb.layout_finish m
  rw [hlayout.frames_eq, hwritten]

/-- `Builder.finish` leaves as many frames as the builder has counted. -/
theorem Sound.frameCount_finish {b : Builder} (hb : b.Sound) (m : Memory) :
    (b.finish m).1.frameCount = b.depth := by
  rw [Store.frameCount, hb.frames_finish, hb.length_written]

/-- The chunks that `Builder.finish` leaves linked are those that the cursor has come to. -/
theorem Sound.chunkCount_finish {b : Builder} (hb : b.Sound) (m : Memory) :
    (b.finish m).1.chunkCount = b.current + 1 := by
  obtain ⟨full, last, spare, hlayout, hfull, -⟩ := hb.layout_finish m
  rw [hlayout.chunkCount_eq, hfull]

/-- The cursor of a `Builder.Sound` builder has come to as many chunks as the written frames need, and
    to one if there is none. -/
theorem Sound.current_eq {b : Builder} (hb : b.Sound) :
    b.current + 1 = max 1 ((b.depth + b.store.chunkSize - 1) / b.store.chunkSize) := by
  -- Finishing links exactly the chunks that the cursor has come to
  obtain ⟨full, last, spare, hlayout, -⟩ := hb.layout_finish (Memory.ofLimit none)
  rw [← hb.chunkCount_finish (Memory.ofLimit none), hlayout.chunkCount_eq_max,
    hb.frameCount_finish, chunkSize_finish]

end Builder

end StackTrace
