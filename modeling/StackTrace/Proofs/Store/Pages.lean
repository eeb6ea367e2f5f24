import Mathlib.Data.List.Induction
import StackTrace.Proofs.Store.History

/-!
# Chunks that are left early

A builder goes on in a further chunk when the current one is full, and whenever it is told to.  A chunk
that is left early keeps its free slots, or, in a store that was used before, the frames of the earlier
trace that lie in them.

What a builder writes into a chunk is a *sheet* (`Sheets`).  What is found in the chunk is a *page*: the
sheet, and behind it what lay there before (`Sheets.pages`).  The last page is cut off behind its sheet
when the store is finished, the others are not.  So the finished store replays the pages up to the
first that is not full, and this need not be what was pushed.

## Key results

- `Builder.LaidOut.perform`: what a step that succeeds writes, whatever the cursor has left behind
- `Builder.LaidOut.frames_finish`: what the finished store replays
- `Sheets.readThrough_pages_of_full`, `Sheets.Covers.readThrough_pages`: when that is all that was written
-/

namespace StackTrace

/-! ## The frame of a push -/

/-- The frame that is stored for an activation, if `Location.pack` stores its index. -/
def Recording.frame? (r : Recording) : Option StoredFrame :=
  match Location.pack r.bci r.method.generation with
  | .ok location => some ⟨r.holder.id, r.method.ordinal, location, r.method.name⟩
  | .error _ => none

/-- `Recording.frame?` is the one frame that `StoredFrame.IsOf` the recording. -/
private theorem Recording.frame?_of_isOf (r : Recording) (hfits : Location.fits r.bci = true)
    {f : StoredFrame} (hf : f.IsOf r) : r.frame? = some f := by
  obtain ⟨l, hpack, hbci, hversion⟩ := Location.pack_of_fits hfits r.method.generation
  have hstored : r.frame? = some ⟨r.holder.id, r.method.ordinal, l, r.method.name⟩ := by
    simp only [frame?, hpack]
  rw [hstored]
  -- Two frames of one activation are the same
  exact congrArg some (StoredFrame.leftUnique_isOf ⟨rfl, rfl, hbci, hversion, rfl⟩ hf)

/-- The step is not a push, or its index passes `Location.fits`. -/
def BuildStep.fits : BuildStep → Bool
  | push _ _ bci => Location.fits bci
  | expand | markHiddenTop => true

/-- A step that succeeds by `BuildStep.perform` is one that fits. -/
private theorem Builder.fits_of_perform {step : BuildStep} {b b' : Builder} {m m' : Memory}
    (h : step.perform b m = (.ok (), b', m')) : step.fits = true := by
  cases step with
  | push holder method bci =>
    cases hfits : Location.fits bci with
    | true => exact hfits
    | false =>
      rw [BuildStep.perform, push_of_not_fits hfits] at h
      cases h
  | expand => rfl
  | markHiddenTop => rfl

/-- The frames that steps store by `Recording.frame?`, in order. -/
def framesOf (steps : List BuildStep) : List StoredFrame :=
  (recordings steps).filterMap Recording.frame?

/-- `framesOf` with one more step. -/
private theorem framesOf_append_singleton (steps : List BuildStep) (step : BuildStep) :
    framesOf (steps ++ [step]) = framesOf steps ++ framesOf [step] := by
  rw [framesOf, recordings, List.filterMap_append, List.filterMap_append]
  rfl

/-- If all indices can be stored, `framesOf` has a frame for each push, and `StoredFrame.IsOf` says of
    what. -/
private theorem forall₂_framesOf {steps : List BuildStep} (hfits : ∀ step ∈ steps, step.fits = true) :
    List.Forall₂ StoredFrame.IsOf (framesOf steps) (recordings steps) := by
  induction steps with
  | nil => exact .nil
  | cons step steps ih =>
    obtain ⟨hstep, hsteps⟩ := List.forall_mem_cons.mp hfits
    cases step with
    | push holder method bci =>
      obtain ⟨f, hrecords, -⟩ := Builder.push_of_fits hstep holder method
      have hframe : Recording.frame? ⟨holder, method, bci⟩ = some f :=
        Recording.frame?_of_isOf ⟨holder, method, bci⟩ hstep hrecords
      simpa [framesOf, recordings, BuildStep.recording?, hframe] using ⟨hrecords, ih hsteps⟩
    | expand => exact ih hsteps
    | markHiddenTop => exact ih hsteps

/-! ## Sheets -/

/-- What a builder has written, chunk by chunk. -/
structure Sheets where
  /-- What was written into the chunks that the cursor has left. -/
  left : List (List StoredFrame)
  /-- What has been written into the chunk that the cursor stands in. -/
  last : List StoredFrame

namespace Sheets

/-- Nothing is written, and the cursor stands in the first chunk. -/
def blank : Sheets := ⟨[], []⟩

/-- The sheets of all chunks, that of the cursor last. -/
def all (p : Sheets) : List (List StoredFrame) := p.left ++ [p.last]

/-- Everything that is written. -/
def frames (p : Sheets) : List StoredFrame := p.all.flatten

/-- Leaves the chunk for the next one. -/
def turn (p : Sheets) : Sheets := ⟨p.all, []⟩

/-- Writes a frame behind those of the last sheet. -/
def write (p : Sheets) (f : StoredFrame) : Sheets := { p with last := p.last ++ [f] }

/-- Goes on in the next chunk if the current one has `size` frames already. -/
def turnIfFull (size : Nat) (p : Sheets) : Sheets := if p.last.length < size then p else p.turn

/-- What a `BuildStep` does that succeeds. -/
def note (size : Nat) (p : Sheets) : BuildStep → Sheets
  | .push holder method bci =>
    match Recording.frame? ⟨holder, method, bci⟩ with
    | some f => (p.turnIfFull size).write f
    | none => p
  | .expand => p.turn
  | .markHiddenTop => p

/-- What steps write that all succeed, by `note`. -/
def ofSteps (size : Nat) (steps : List BuildStep) : Sheets := steps.foldl (note size) blank

/-- `Sheets.ofSteps` with one more step notes that step. -/
theorem ofSteps_append_singleton (size : Nat) (steps : List BuildStep) (step : BuildStep) :
    ofSteps size (steps ++ [step]) = (ofSteps size steps).note size step := by
  rw [ofSteps, List.foldl_append]
  rfl

@[simp] theorem frames_turn (p : Sheets) : p.turn.frames = p.frames := by
  simp [turn, frames, all]

@[simp] theorem frames_write (p : Sheets) (f : StoredFrame) : (p.write f).frames = p.frames ++ [f] := by
  simp [write, frames, all]

@[simp] theorem frames_turnIfFull (size : Nat) (p : Sheets) :
    (p.turnIfFull size).frames = p.frames := by
  unfold turnIfFull
  split
  · rfl
  · exact p.frames_turn

/-- `Sheets.note` writes the frame of a push, on a further sheet if the last one is full. -/
theorem note_of_frame? {size : Nat} {p : Sheets} {holder : Class} {method : Method} {bci : Int}
    {f : StoredFrame} (h : Recording.frame? ⟨holder, method, bci⟩ = some f) :
    p.note size (.push holder method bci) = (p.turnIfFull size).write f := by
  simp only [note, h]

/-- `Sheets.note` adds the frames of the step. -/
private theorem frames_note (size : Nat) (p : Sheets) (step : BuildStep) :
    (p.note size step).frames = p.frames ++ framesOf [step] := by
  cases step with
  | push holder method bci =>
    cases hframe : Recording.frame? ⟨holder, method, bci⟩ with
    | none => simp [note, framesOf, recordings, BuildStep.recording?, hframe]
    | some f => simp [note, framesOf, recordings, BuildStep.recording?, hframe]
  | expand => simp [note, framesOf, recordings, BuildStep.recording?]
  | markHiddenTop => simp [note, framesOf, recordings, BuildStep.recording?]

/-- However `Sheets.ofSteps` spreads them over the chunks, all frames are written, in order. -/
private theorem frames_ofSteps (size : Nat) (steps : List BuildStep) :
    (ofSteps size steps).frames = framesOf steps := by
  induction steps using List.reverseRecOn with
  | nil => rfl
  | append_singleton steps step ih =>
    rw [ofSteps_append_singleton, frames_note, ih, framesOf_append_singleton]

end Sheets

/-! ## Pages -/

/-- The frames that lie in a chunk of the store, if it has that chunk. -/
def Store.page (s : Store) (i : Nat) : List StoredFrame :=
  ((s.chunks[i]?).map (·.frames.toList)).getD []

/-- A sheet, and what is found behind it. -/
def overlay (sheet page : List StoredFrame) : List StoredFrame := sheet ++ page.drop sheet.length

@[simp] theorem overlay_nil (page : List StoredFrame) : overlay [] page = page := rfl

/-- `overlay` of a sheet that covers the page is the sheet. -/
private theorem overlay_of_le {sheet page : List StoredFrame} (h : page.length ≤ sheet.length) :
    overlay sheet page = sheet := by
  rw [overlay, List.drop_of_length_le h, List.append_nil]

/-- `overlay` is as long as the longer of the two. -/
private theorem length_overlay (sheet page : List StoredFrame) :
    (overlay sheet page).length = max sheet.length page.length := by
  rw [overlay, List.length_append, List.length_drop]
  omega

/-- `overlay` has the sheet at the front. -/
private theorem take_overlay (sheet page : List StoredFrame) :
    (overlay sheet page).take sheet.length = sheet := by
  rw [overlay, List.take_left']
  rfl

/-- `Chunk.write` behind the sheet makes it longer by one frame, whatever lies in the chunk. -/
private theorem Chunk.toList_frames_write {c : Chunk} {sheet page : List StoredFrame}
    (h : c.frames.toList = overlay sheet page) (f : StoredFrame) :
    (c.write sheet.length f).frames.toList = overlay (sheet ++ [f]) page := by
  have hsize : c.frames.size = max sheet.length page.length := by
    rw [← Array.length_toList, h, length_overlay]
  rw [write_eq]
  split
  · -- The earlier frame in the slot is overwritten
    have hlt : sheet.length < page.length := by omega
    rw [Array.toList_setIfInBounds, h, overlay, overlay, List.set_append_right _ _ (Nat.le_refl _),
      Nat.sub_self, List.drop_eq_getElem_cons hlt, List.set_cons_zero]
    simp
  · -- There is no earlier frame in the slot, nor behind it
    rw [Array.toList_push, h, overlay_of_le (by omega), overlay_of_le (by simp; omega)]

/-- What is found in the chunks that the builder has come to, once the last one is cut off: each
    `overlay`, and the last sheet. -/
def Sheets.pages (p : Sheets) (s : Store) : List (List StoredFrame) :=
  p.left.mapIdx (fun i sheet => overlay sheet (s.page i)) ++ [p.last]

/-- The chunks that were left hold no frames of an earlier trace behind the sheets. -/
def Sheets.Covers (p : Sheets) (s : Store) : Prop :=
  ∀ i sheet, p.left[i]? = some sheet → (s.page i).length ≤ sheet.length

/-- Where `Sheets.Covers` holds, the pages are the sheets. -/
private theorem Sheets.Covers.pages_eq {p : Sheets} {s : Store} (h : p.Covers s) : p.pages s = p.all := by
  rw [pages, all, List.append_cancel_right_eq]
  refine List.ext_getElem? fun i => ?_
  rw [List.getElem?_mapIdx]
  cases hi : p.left[i]? with
  | none => rfl
  | some sheet => exact congrArg some (overlay_of_le (h i sheet hi))

/-- No chunk is left early, unless nothing is written behind it. -/
def Sheets.GapFree (size : Nat) (p : Sheets) : Prop :=
  p.all.Pairwise fun sheet behind => sheet.length < size → behind = []

/-- Where nothing of an earlier trace is found, `readThrough` loses frames behind a gap and nowhere
    else. -/
theorem Sheets.Covers.readThrough_pages {p : Sheets} {s : Store} (h : p.Covers s) (size : Nat) :
    readThrough size (p.pages s) <+: p.frames ∧
      ((readThrough size (p.pages s)).length = p.frames.length ↔ p.GapFree size) := by
  rw [h.pages_eq, frames, GapFree, ← readThrough_eq_flatten_iff]
  have hfirst : readThrough size p.all <+: p.all.flatten := readThrough_prefix p.all
  exact ⟨hfirst, hfirst.eq_of_length, congrArg List.length⟩

/-- No `Store.page` has more frames than a chunk has slots. -/
private theorem Store.Usable.length_page_le {s : Store} (hs : s.Usable) (i : Nat) :
    (s.page i).length ≤ s.chunkSize := by
  unfold page
  cases hi : s.chunks[i]? with
  | none => exact Nat.zero_le _
  | some c =>
    have hc : c ∈ s.chunks.toList := Array.mem_toList_iff.mpr (Array.mem_of_getElem? hi)
    simpa using (hs.fits c hc).size_le

/-- `Sheets.Covers` holds if every sheet that was left takes all slots, for there is no room for earlier
    frames behind it. -/
private theorem Sheets.covers_of_full {p : Sheets} {s : Store} (hs : s.Usable)
    (hfull : ∀ sheet ∈ p.left, sheet.length = s.chunkSize) : p.Covers s := by
  intro i sheet hi
  rw [hfull sheet (List.mem_of_getElem? hi)]
  exact hs.length_page_le i

/-- If every chunk is full that was left, `readThrough` replays all that was written, and nothing
    else. -/
theorem Sheets.readThrough_pages_of_full {p : Sheets} {s : Store} (hs : s.Usable)
    (hfull : ∀ sheet ∈ p.left, sheet.length = s.chunkSize) :
    readThrough s.chunkSize (p.pages s) = p.frames := by
  rw [(covers_of_full hs hfull).pages_eq]
  exact readThrough_of_full (fun sheet hsheet => Nat.le_of_eq (hfull sheet hsheet).symm) p.last

/-! ## The store under a builder that leaves chunks early -/

namespace Builder

/-- The chunks of a builder that was opened on `s`: those that its cursor has left, the one that the cursor
    stands in, and behind it what is left of `s`. -/
structure Laid (b : Builder) (s : Store) (p : Sheets) (left : List Chunk) (last : Chunk) : Prop where
  chunks_eq : b.store.chunks.toList = left ++ last :: s.chunks.toList.drop (left.length + 1)
  usable : s.Usable
  chunkSize_eq : b.store.chunkSize = s.chunkSize
  chained : Chunk.Chained s.chunkSize 0 left
  left_eq : left.map (·.frames.toList) = p.left.mapIdx fun i sheet => overlay sheet (s.page i)
  last_fits : last.Fits s.chunkSize
  last_eq : last.frames.toList = overlay p.last (s.page left.length)
  current_eq : b.current = left.length
  slot_eq : b.slot = p.last.length
  depth_eq : b.depth = p.frames.length
  /-- A store that is new has one chunk to begin with, and nothing in it. -/
  of_new : b.reuse = false → s.chunks.size = 1 ∧ (∀ i, s.page i = []) ∧ last.next = none

namespace Laid

variable {b b' : Builder} {s : Store} {p : Sheets} {left : List Chunk} {last : Chunk} {m m' : Memory}

/-- `Builder.Laid` has a sheet for each chunk that was left. -/
private theorem length_left (h : b.Laid s p left last) : p.left.length = left.length := by
  have hlength := congrArg List.length h.left_eq
  rwa [List.length_map, List.length_mapIdx, eq_comm] at hlength

/-- The last sheet of `Builder.Laid` fits into a chunk. -/
private theorem length_last_le (h : b.Laid s p left last) : p.last.length ≤ s.chunkSize := by
  have hsize := congrArg List.length h.last_eq
  have hfits := h.last_fits.size_le
  rw [length_overlay, Array.length_toList] at hsize
  omega

/-- `Builder.Laid` has as many chunks as the store had, or as were needed. -/
private theorem size_eq (h : b.Laid s p left last) :
    b.store.chunks.size = max s.chunks.size (left.length + 1) := by
  have hlength := congrArg List.length h.chunks_eq
  rw [List.length_append, List.length_cons, List.length_drop, @Array.length_toList _ s.chunks,
    @Array.length_toList _ b.store.chunks] at hlength
  omega

/-- Changing the chunk that the cursor stands in changes no other chunk of `Builder.Laid`. -/
private theorem toList_modify (h : b.Laid s p left last) (g : Chunk → Chunk) :
    (b.store.chunks.modify b.current g).toList =
      left ++ g last :: s.chunks.toList.drop (left.length + 1) := by
  rw [h.current_eq, toList_modify_of_eq h.chunks_eq]

/-- `Builder.write` and `Sheets.write` together keep `Builder.Laid`. -/
private theorem write (h : b.Laid s p left last) (hslot : p.last.length < s.chunkSize) (f : StoredFrame) :
    (b.write f).Laid s (p.write f) left (last.write p.last.length f) where
  chunks_eq := by
    rw [write_eq, h.slot_eq]
    exact h.toList_modify _
  usable := h.usable
  chunkSize_eq := h.chunkSize_eq
  chained := h.chained
  left_eq := h.left_eq
  last_fits := h.last_fits.write hslot f
  last_eq := Chunk.toList_frames_write h.last_eq f
  current_eq := h.current_eq
  slot_eq := by simp [write_eq, Sheets.write, h.slot_eq]
  depth_eq := by simp [write_eq, h.depth_eq]
  of_new := by
    intro hnew
    obtain ⟨hsize, hpages, hnext⟩ := h.of_new hnew
    refine ⟨hsize, hpages, ?_⟩
    rw [Chunk.write_eq]
    exact hnext

/-- Where the cursor goes on in the next chunk, which is one of `s` or a new one, `Sheets.turn` keeps
    `Builder.Laid`. -/
private theorem advance (h : b.Laid s p left last) (chunks : Array Chunk) {c : Chunk}
    (hchunks : chunks.toList = left ++ { last with next := some (left.length + 1) } ::
      c :: s.chunks.toList.drop (left.length + 2))
    (hfits : c.Fits s.chunkSize) (hpage : c.frames.toList = s.page (left.length + 1))
    (hnext : b.reuse = false → c.next = none) :
    Laid { b with store := { b.store with chunks }, current := left.length + 1, slot := 0 } s p.turn
      (left ++ [{ last with next := some (left.length + 1) }]) c where
  chunks_eq := by simp [hchunks]
  usable := h.usable
  chunkSize_eq := h.chunkSize_eq
  chained := by
    rw [Chunk.chained_append_singleton]
    exact ⟨h.chained, ⟨h.last_fits.capacity_eq, h.last_fits.size_le⟩, by rw [Nat.zero_add]⟩
  left_eq := by
    -- The chunk that is left keeps its page, with what is found behind the sheet
    rw [List.map_append, h.left_eq, Sheets.turn, Sheets.all, List.mapIdx_concat, h.length_left]
    exact congrArg (_ ++ [·]) h.last_eq
  last_fits := hfits
  last_eq := by simp [hpage, Sheets.turn]
  current_eq := by simp
  slot_eq := rfl
  depth_eq := by simp [h.depth_eq]
  of_new := by
    intro hnew
    obtain ⟨hsize, hpages, -⟩ := h.of_new hnew
    exact ⟨hsize, hpages, hnext hnew⟩

/-- `Builder.expand` writes nothing, but goes on to a new sheet by `Sheets.turn`. -/
private theorem expand (h : b.Laid s p left last) (hexpand : b.expand m = (.ok (), b', m')) :
    ∃ left' last', b'.Laid s p.turn left' last' ∧ b'.store.hiddenTop = b.store.hiddenTop := by
  have hsize := h.size_eq
  rcases expand_cases hexpand with ⟨⟨e, he⟩, -⟩ | ⟨-, hreuse, hlt, rfl⟩ | ⟨-, hlast, reservation, rfl⟩
  · cases he
  · -- The next chunk of a used store, with whatever lies in it
    rw [h.current_eq, hsize] at hlt
    have hid : left.length + 1 < s.chunks.size := by omega
    have hdrop : s.chunks.toList.drop (left.length + 1) =
        s.chunks[left.length + 1] :: s.chunks.toList.drop (left.length + 2) := by
      rw [List.drop_eq_getElem_cons (by simpa using hid), Array.getElem_toList]
    rw [h.current_eq]
    refine ⟨_, s.chunks[left.length + 1], h.advance _ ?_ (h.usable.fits _ (by simp)) ?_ ?_, rfl⟩
    · rw [h.toList_modify, hdrop]
    · simp [Store.page, hid]
    · simp [hreuse]
  · -- A new chunk, because no chunk of `s` is left
    have hid : b.store.chunks.size = left.length + 1 := by
      cases hreuse : b.reuse with
      | false =>
        have hone := (h.of_new hreuse).1
        omega
      | true =>
        have hle := hlast hreuse
        rw [h.current_eq] at hle
        omega
    have hle : s.chunks.size ≤ left.length + 1 := by omega
    have hnone : ∀ i, left.length + 1 ≤ i → s.chunks.toList.drop i = [] := fun i hi =>
      List.drop_of_length_le (by simp; omega)
    rw [hid]
    refine ⟨_, ⟨b.store.chunkSize, #[], none, reservation⟩, h.advance _ ?_ ?_ ?_ fun _ => rfl, rfl⟩
    · have hchunks : (b.store.chunks.push ⟨b.store.chunkSize, #[], none, reservation⟩).toList =
          left ++ last :: [⟨b.store.chunkSize, #[], none, reservation⟩] := by
        rw [Array.toList_push, h.chunks_eq, hnone _ (Nat.le_refl _), List.append_assoc]
        rfl
      show ((b.store.chunks.push _).modify b.current _).toList = _
      rw [hnone _ (by omega), h.current_eq, toList_modify_of_eq hchunks]
    · rw [h.chunkSize_eq]
      exact Chunk.fits_empty _ _
    · simp [Store.page, hle]

/-- A `Builder.push` that succeeds writes its frame where the cursor stands, or into the next chunk. -/
private theorem push (h : b.Laid s p left last) {holder : Class} {method : Method} {bci : Int}
    (hpush : b.push m holder method bci = (.ok (), b', m')) :
    ∃ left' last', b'.Laid s (p.note s.chunkSize (.push holder method bci)) left' last' ∧
      b'.store.hiddenTop = b.store.hiddenTop := by
  have hfits : (BuildStep.push holder method bci).fits = true := fits_of_perform hpush
  rcases push_cases hpush with ⟨⟨e, he⟩, -⟩ | ⟨-, f, d, hrecords, rfl, hmoved⟩
  · cases he
  · have hframe : Recording.frame? ⟨holder, method, bci⟩ = some f :=
      Recording.frame?_of_isOf ⟨holder, method, bci⟩ hfits hrecords
    rw [Sheets.note_of_frame? hframe, Sheets.turnIfFull, ← h.slot_eq, ← h.chunkSize_eq]
    rcases hmoved with ⟨hslot, rfl⟩ | ⟨hfull, m'', hexpand⟩
    · rw [if_pos hslot]
      rw [h.slot_eq, h.chunkSize_eq] at hslot
      exact ⟨_, _, h.write hslot f, rfl⟩
    · obtain ⟨left', last', hturned, hhidden⟩ := h.expand hexpand
      rw [if_neg (by omega)]
      exact ⟨_, _, hturned.write h.usable.chunkSize_pos f, hhidden⟩

/-- A `Builder.markHiddenTop` that succeeds writes nothing. -/
private theorem markHiddenTop (h : b.Laid s p left last) (hmark : b.markHiddenTop m = (.ok (), b', m')) :
    b'.Laid s p left last ∧ b'.store.hasHiddenTop = true := by
  rcases markHiddenTop_cases hmark with ⟨⟨e, he⟩, -⟩ | ⟨-, hmarked, rfl⟩ | ⟨-, marker, hvalue, rfl⟩
  · cases he
  · exact ⟨h, hmarked⟩
  · -- The marker has no part in the chunks
    exact ⟨⟨h.chunks_eq, h.usable, h.chunkSize_eq, h.chained, h.left_eq, h.last_fits, h.last_eq,
      h.current_eq, h.slot_eq, h.depth_eq, h.of_new⟩, hvalue⟩

/-- A `BuildStep.perform` that succeeds writes what it should, whatever the cursor has left behind. -/
theorem perform (h : b.Laid s p left last) {step : BuildStep}
    (hperform : step.perform b m = (.ok (), b', m')) :
    ∃ left' last', b'.Laid s (p.note s.chunkSize step) left' last' ∧
      b'.store.hasHiddenTop = (b.store.hasHiddenTop || step.isMark) := by
  cases step with
  | push holder method bci =>
    obtain ⟨left', last', hpushed, hhidden⟩ := h.push hperform
    exact ⟨left', last', hpushed, by simp [Store.hasHiddenTop, hhidden, BuildStep.isMark]⟩
  | expand =>
    obtain ⟨left', last', hturned, hhidden⟩ := h.expand hperform
    exact ⟨left', last', hturned, by simp [Store.hasHiddenTop, hhidden, BuildStep.isMark]⟩
  | markHiddenTop =>
    obtain ⟨hlaid, hmarked⟩ := h.markHiddenTop hperform
    exact ⟨left, last, hlaid, by simp [hmarked, BuildStep.isMark]⟩

/-- `Builder.finish` leaves a store that replays the pages, up to the first that is not full. -/
theorem frames_finish (h : b.Laid s p left last) (m : Memory) :
    (b.finish m).1.frames = readThrough s.chunkSize (p.pages s) := by
  have hchunkSize : (b.finish m).1.chunkSize = s.chunkSize :=
    (chunkSize_finish b m).trans h.chunkSize_eq
  -- Whatever it was before, the last chunk holds its sheet and is linked to none
  obtain ⟨cut, hchunks, hfits, hnext, hpage⟩ : ∃ cut : Chunk,
      (b.finish m).1.chunks.toList = left ++ cut :: s.chunks.toList.drop (left.length + 1) ∧
      cut.Fits s.chunkSize ∧ cut.next = none ∧ cut.frames.toList = p.last := by
    cases hreuse : b.reuse with
    | true =>
      have htake : (last.frames.take b.slot).toList = last.frames.toList.take b.slot := by simp
      have hcut : (last.frames.take b.slot).toList = p.last := by
        rw [htake, h.slot_eq, h.last_eq, take_overlay]
      refine ⟨{ last.clearFrom b.slot with next := none }, ?_, ⟨h.last_fits.capacity_eq, ?_⟩, rfl, hcut⟩
      · rw [finish_of_reuse hreuse]
        exact h.toList_modify _
      · have hle := h.length_last_le
        rw [← hcut, Array.length_toList] at hle
        exact hle
    | false =>
      obtain ⟨-, hpages, hlast⟩ := h.of_new hreuse
      rw [finish_of_new hreuse]
      refine ⟨last, h.chunks_eq, h.last_fits, hlast, ?_⟩
      rw [h.last_eq, hpages, overlay_of_le (Nat.zero_le _)]
  rw [← hchunkSize] at hfits
  -- So the trace is what is read through the chunks that were left and this one
  have hframes := Store.frames_of_chained hchunks (hchunkSize ▸ h.usable.chunkSize_pos)
    (hchunkSize ▸ h.chained) hfits hnext
  rw [hframes, hchunkSize, h.left_eq, hpage, Sheets.pages]

end Laid

/-- What steps have come to that were taken by a builder opened on `s`, and that all succeeded. -/
structure LaidOut (b : Builder) (s : Store) (steps : List BuildStep) : Prop where
  fits : ∀ step ∈ steps, step.fits = true
  laid : ∃ left last, b.Laid s (Sheets.ofSteps s.chunkSize steps) left last
  hidden_eq : b.store.hasHiddenTop = steps.any BuildStep.isMark

section LaidOut

variable {b b' : Builder} {s : Store} {steps : List BuildStep} {m m' : Memory}

/-- A `BuildStep.perform` that succeeds keeps `Builder.LaidOut`. -/
theorem LaidOut.perform (h : b.LaidOut s steps) {step : BuildStep}
    (hperform : step.perform b m = (.ok (), b', m')) : b'.LaidOut s (steps ++ [step]) := by
  obtain ⟨left, last, hlaid⟩ := h.laid
  obtain ⟨left', last', hlaid', hhidden⟩ := hlaid.perform hperform
  refine ⟨fun step' hstep' => ?_, ⟨left', last', ?_⟩, ?_⟩
  · rcases List.mem_append.mp hstep' with hstep' | hstep'
    · exact h.fits step' hstep'
    · rw [List.mem_singleton.mp hstep']
      exact fits_of_perform hperform
  · rw [Sheets.ofSteps_append_singleton]
    exact hlaid'
  · simp [hhidden, h.hidden_eq]

/-- All frames of `Builder.LaidOut` are written, however they are spread over the chunks. -/
theorem LaidOut.isOf (h : b.LaidOut s steps) : List.Forall₂ StoredFrame.IsOf
    (Sheets.ofSteps s.chunkSize steps).frames (recordings steps) := by
  rw [Sheets.frames_ofSteps]
  exact forall₂_framesOf h.fits

/-- A `Builder.LaidOut` builder has counted every push. -/
theorem LaidOut.depth_eq (h : b.LaidOut s steps) : b.depth = (recordings steps).length := by
  obtain ⟨left, last, hlaid⟩ := h.laid
  rw [hlaid.depth_eq]
  exact h.isOf.length_eq

/-- `Builder.finish` leaves a store that replays the pages of the steps. -/
theorem LaidOut.frames_finish (h : b.LaidOut s steps) (m : Memory) :
    (b.finish m).1.frames = readThrough s.chunkSize ((Sheets.ofSteps s.chunkSize steps).pages s) := by
  obtain ⟨left, last, hlaid⟩ := h.laid
  exact hlaid.frames_finish m

/-- `Store.Usable` holds of a store that has been laid out over. -/
theorem LaidOut.usable (h : b.LaidOut s steps) : s.Usable := by
  obtain ⟨left, last, hlaid⟩ := h.laid
  exact hlaid.usable

/-- In a store that is new nothing is found behind the sheets, so `Sheets.Covers` holds. -/
theorem LaidOut.covers_of_new (h : b.LaidOut s steps) (hnew : b.reuse = false) (p : Sheets) :
    p.Covers s := by
  obtain ⟨left, last, hlaid⟩ := h.laid
  intro i sheet _
  rw [(hlaid.of_new hnew).2.1 i]
  exact Nat.zero_le _

/-- A builder that has just been opened, on a store that is new and empty or one that is usable, is
    `Builder.LaidOut` without any steps. -/
private theorem laidOut_opened (hs : b.store.Usable) (hcurrent : b.current = 0) (hslot : b.slot = 0)
    (hdepth : b.depth = 0) (hhidden : b.store.hasHiddenTop = false)
    (hnew : b.reuse = false → ∃ reservation,
      b.store.chunks = #[⟨b.store.chunkSize, #[], none, reservation⟩]) : b.LaidOut b.store [] := by
  obtain ⟨c, cs, hchunks⟩ := List.exists_cons_of_ne_nil hs.chunks_ne_nil
  have hc : b.store.page 0 = c.frames.toList := by
    simp [Store.page, ← Array.getElem?_toList, hchunks]
  -- The blank sheet covers nothing of the first page
  have hlaid : b.Laid b.store Sheets.blank [] c := by
    refine ⟨by simp [hchunks], hs, rfl, trivial, rfl, hs.fits c (by simp [hchunks]), hc.symm, hcurrent,
      hslot, hdepth, fun hreuse => ?_⟩
    -- The one chunk of a new store is empty, so every page of it is
    obtain ⟨reservation, hone⟩ := hnew hreuse
    refine ⟨by simp [hone], fun i => ?_, ?_⟩
    · cases i with
      | zero => simp [Store.page, hone]
      | succ i => simp [Store.page, hone]
    · rw [hone] at hchunks
      simp only [List.cons.injEq] at hchunks
      rw [← hchunks.1]
  refine ⟨fun step hstep => ?_, ⟨_, _, hlaid⟩, hhidden⟩
  cases hstep

/-- `Builder.start` is `Builder.LaidOut` without any steps. -/
theorem laidOut_start {chunkSize : Nat} (h : start chunkSize m = (.ok b, m')) :
    b.LaidOut b.store [] := by
  have hs := (start_ok h).1.sound.usable
  rcases start_cases h with ⟨e, he⟩ | ⟨-, reservation, hok⟩
  · cases he
  · cases hok
    exact laidOut_opened hs rfl rfl rfl rfl fun _ => ⟨reservation, rfl⟩

/-- `Builder.reopen` is `Builder.LaidOut` without any steps. -/
theorem laidOut_reopen (hs : s.Usable) (m : Memory) :
    (reopen s m).1.LaidOut (reopen s m).1.store [] :=
  laidOut_opened (hs.withHiddenTop none) rfl rfl rfl rfl nofun

end LaidOut

end Builder

end StackTrace
