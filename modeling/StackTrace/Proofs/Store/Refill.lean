import StackTrace.Proofs.Store.History

/-!
# Filling a store again

A store that is filled again holds exactly what a new store would hold that is built by the same
steps.  Of the trace it held before nothing is left, however long that was; only its chunks are used
again, and no more are allocated than it lacks.

## Key results

- `Builder.Blank.fill`: what an unused builder makes of storable steps, on a new store or a used one
- `Store.refill_eq_build`: filling again gives what building anew gives
-/

namespace StackTrace

/-- The chunks of `chunkSize` slots that so many frames need; a trace without frames has one, too. -/
def chunksFor (chunkSize frames : Nat) : Nat := max 1 ((frames + chunkSize - 1) / chunkSize)

/-- The store holds what `steps` have recorded, and nothing else. -/
structure Store.Holds (s : Store) (steps : List BuildStep) : Prop where
  frames : List.Forall₂ StoredFrame.IsOf s.frames (recordings steps)
  frameCount_eq : s.frameCount = (recordings steps).length
  chunkCount_eq : s.chunkCount = chunksFor s.chunkSize (recordings steps).length
  hiddenTop_eq : s.hasHiddenTop = steps.any BuildStep.isMark

/-- Two stores that hold by `Store.Holds` what the same steps have recorded replay the same frames. -/
private theorem Store.Holds.frames_eq {s s' : Store} {steps : List BuildStep} (h : s.Holds steps)
    (h' : s'.Holds steps) : s.frames = s'.frames :=
  List.left_unique_forall₂' StoredFrame.leftUnique_isOf h.frames h'.frames

namespace Builder

/-- What `Builder.finish` leaves after steps that all succeeded holds what they recorded. -/
theorem Performed.holds {b b' : Builder} {steps : List BuildStep} (h : Performed steps b b')
    (hb : b.Blank) (m : Memory) : (b'.finish m).1.Holds steps := by
  obtain ⟨fs, hfs, hwritten⟩ := h.written_eq
  rw [hb.written_eq, List.nil_append] at hwritten
  -- Nothing was written before, so there is one frame for each push
  have hdepth : b'.depth = (recordings steps).length := by
    rw [← h.sound.length_written, hwritten, hfs.length_eq]
  refine ⟨?_, ?_, ?_, ?_⟩
  · rw [h.sound.frames_finish, hwritten]
    exact hfs
  · rw [h.sound.frameCount_finish, hdepth]
  · rw [h.sound.chunkCount_finish, h.sound.current_eq, hdepth, chunkSize_finish]
    rfl
  · rw [Store.hasHiddenTop, hiddenTop_finish, ← Store.hasHiddenTop, h.hidden_eq, Store.hasHiddenTop,
      hb.hiddenTop_eq, Option.map_none, Option.getD_none, Bool.false_or]

/-- What an unused builder makes of storable steps by `performAll`: a store that holds what they record.
    It has the chunks it began with, and those that it lacked are paid for, like the marker. -/
theorem Blank.fill {b : Builder} (hb : b.Blank) {m : Memory} (hm : m.NeverRefusesInScope)
    {steps : List BuildStep} (hsteps : ∀ step ∈ steps, step.Storable) :
    ∃ b' m', performAll steps b m = (.ok (), b', m') ∧
      (b'.finish m').1.Holds steps ∧ (b'.finish m').1.chunkSize = b.store.chunkSize ∧
      (b'.finish m').1.chunks.size = max b.store.chunks.size
        (chunksFor b.store.chunkSize (recordings steps).length) ∧
      (b'.finish m').2 =
        let added := (b'.finish m').1.chunks.size - b.store.chunks.size
        let marks := (steps.any BuildStep.isMark).toNat
        Memory.charged { m with safepoints := m.safepoints.close ⟨true⟩ } (added + marks)
          (added * Chunk.heapBytes b.store.chunkSize + marks * objectBytes 1) := by
  obtain ⟨b', m', hperform, hperformed, hspent⟩ :=
    performAll_of_storable hm hsteps hb.sound (hb.spent hm)
  have hholds := hperformed.holds hb m'
  have hchunkSize : (b'.finish m').1.chunkSize = b.store.chunkSize := by
    rw [chunkSize_finish, hperformed.same.chunkSize_eq]
  -- The cursor has come to as many chunks as are linked
  have hcurrent : b'.current + 1 = chunksFor b.store.chunkSize (recordings steps).length := by
    rw [← hperformed.sound.chunkCount_finish m', hholds.chunkCount_eq, hchunkSize]
  have hhidden : b'.store.hasHiddenTop = steps.any BuildStep.isMark := by
    rw [Store.hasHiddenTop, ← hiddenTop_finish b' m']
    exact hholds.hiddenTop_eq
  -- The arena has the chunks that it began with, or as many as the cursor has come to
  refine ⟨b', m', hperform, hholds, hchunkSize, ?_, ?_⟩
  · rw [size_chunks_finish, hspent.size_eq, hcurrent]
  · rw [snd_finish, hspent.memory_eq, hperformed.same.verifier_eq, hb.verifier_eq,
      hperformed.same.chunkSize_eq, hhidden, size_chunks_finish]
    rfl

end Builder

namespace Store

/-- `Store.refill` gives what `Store.build` gives: the same frames in the same order, as many chunks
    linked, and the marker of the innermost frame as the steps have set it.  Nothing of the trace before
    is left; the chunks of the store are used again and only those that it lacks are allocated. -/
theorem refill_eq_build {s : Store} (hs : s.Finished) {steps : List BuildStep}
    (hsteps : ∀ step ∈ steps, step.Storable) {m₁ m₂ : Memory} (hm₁ : m₁.NeverRefuses)
    (hm₂ : m₂.NeverRefuses) :
    ∃ refilled n₁ fresh n₂, s.refill steps m₁ = (.ok refilled, n₁) ∧
      build s.chunkSize steps m₂ = (.ok fresh, n₂) ∧
      refilled.frames = fresh.frames ∧
      List.Forall₂ StoredFrame.IsOf fresh.frames (recordings steps) ∧
      refilled.frameCount = (recordings steps).length ∧
      fresh.frameCount = (recordings steps).length ∧
      refilled.chunkCount = chunksFor s.chunkSize (recordings steps).length ∧
      fresh.chunkCount = chunksFor s.chunkSize (recordings steps).length ∧
      refilled.hasHiddenTop = steps.any BuildStep.isMark ∧
      fresh.hasHiddenTop = steps.any BuildStep.isMark ∧
      refilled.chunks.size =
        max s.chunks.size (chunksFor s.chunkSize (recordings steps).length) ∧
      n₁ =
        let added := refilled.chunks.size - s.chunks.size
        let marks := (steps.any BuildStep.isMark).toNat
        (m₁.releaseAll (s.hiddenTop.map (·.reservation)).toList).charged (added + marks)
          (added * Chunk.heapBytes s.chunkSize + marks * objectBytes 1) := by
  -- Both builders are unused, so both make the same of the steps
  have hscope₁ := Builder.neverRefuses_reopen s hm₁
  obtain ⟨b₁, n₁, hperform₁, hholds₁, hsize₁, hchunks₁, hmemory₁⟩ :=
    (Builder.blank_reopen hs.usable m₁).fill hscope₁ hsteps
  obtain ⟨b, hstart⟩ := Builder.start_of_neverRefuses hs.usable.chunkSize_pos hm₂
  obtain ⟨hblank, hsize, -⟩ := Builder.start_ok hstart
  obtain ⟨b₂, n₂, hperform₂, hholds₂, hsize₂, -, -⟩ :=
    hblank.fill (hm₂.openScope.charged 1 (Chunk.heapBytes s.chunkSize)) hsteps
  refine ⟨(b₁.finish n₁).1, (b₁.finish n₁).2, (b₂.finish n₂).1, (b₂.finish n₂).2, ?_, ?_,
    hholds₁.frames_eq hholds₂, hholds₂.frames, hholds₁.frameCount_eq, hholds₂.frameCount_eq, ?_, ?_,
    hholds₁.hiddenTop_eq, hholds₂.hiddenTop_eq, hchunks₁, hmemory₁⟩
  · simp only [refill, hperform₁]
  · simp only [build, hstart, hperform₂]
  · rw [hholds₁.chunkCount_eq, hsize₁]
    rfl
  · rw [hholds₂.chunkCount_eq, hsize₂, hsize]

/-- `refill_eq_build` in chunks of one slot: a trace of three frames is replaced by one of two, with a
    marker.  The two chunks at the front are used again and the third stays in the arena. -/
theorem refill_eq_build_shorter :
    let holder : Class :=
      ⟨⟨0⟩, ⟨"acme/Widget", 0⟩, none, none, none, ⟨0, none, #[]⟩, [], 0⟩
    let run : BuildStep := .push holder ⟨⟨0⟩, 0, 0, 0, ⟨"run", 1⟩, ⟨"()V", 2⟩, {}, 1, []⟩ 7
    ∃ s n₁ refilled n₂, build 1 [run, run, run] (Memory.ofLimit none) = (.ok s, n₁) ∧
      s.refill [.markHiddenTop, run, run] n₁ = (.ok refilled, n₂) ∧
      refilled.frameCount = 2 ∧ refilled.chunkCount = 2 ∧ refilled.hasHiddenTop = true ∧
      refilled.chunks.size = 3 := by
  intro holder run
  -- The longer trace is built on unlimited memory
  obtain ⟨s, n₁, hbuild, hchunkSize, hsize, hneverRefuses⟩ :
      ∃ s n₁, build 1 [run, run, run] (Memory.ofLimit none) = (.ok s, n₁) ∧ s.chunkSize = 1 ∧
        s.chunks.size = 3 ∧ n₁.NeverRefuses :=
    ⟨_, _, rfl, rfl, rfl, ⟨⟨(fun _ h => nomatch h), by decide⟩, rfl⟩⟩
  have hsteps : ∀ step ∈ [.markHiddenTop, run, run], step.Storable := by
    simp [run, BuildStep.Storable, Location.fits, Location.maxBci]
  obtain ⟨refilled, n₂, -, -, hrefill, -, -, -, hcount, -, hchunks, -, hhidden, -, harena, -⟩ :=
    refill_eq_build (finished_of_build hbuild) hsteps hneverRefuses hneverRefuses
  have hneeded : chunksFor 1 (recordings [.markHiddenTop, run, run]).length = 2 := by decide
  rw [hchunkSize, hneeded] at hchunks harena
  rw [hsize] at harena
  exact ⟨s, n₁, refilled, n₂, hbuild, hrefill, hcount, hchunks, hhidden, harena⟩

end Store

end StackTrace
