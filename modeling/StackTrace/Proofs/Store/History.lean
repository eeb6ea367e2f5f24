import Mathlib.Data.List.Forall2
import StackTrace.Proofs.Store.Costs
import StackTrace.Proofs.Store.Packing

/-!
# Histories of a store

A store is built by a sequence of steps and may be filled again by another one, any number of times.
Any step may fail, because the heap refuses it or its index cannot be stored, and the history goes on
from the builder as it then is.

## Key results

- `Store.Finished.usable`: whatever has happened to a store, it can be filled again
- `Builder.Opened.placed`, `Builder.placed_push`: in any history, the frame that was pushed last
  lies in front of the cursor
- `Builder.performAll_of_storable`: with memory that never refuses, a sequence of storable steps
  writes the records of its pushes and nothing else
-/

namespace StackTrace

/-- A step in filling a store. -/
inductive BuildStep where
  | push (holder : Class) (method : Method) (bci : Int)
  | expand
  | markHiddenTop

/-- What `Builder.push` is asked to record. -/
structure Recording where
  holder : Class
  method : Method
  bci : Int

/-- The frame stores what was to be recorded, by `StoredFrame.Records`. -/
def StoredFrame.IsOf (f : StoredFrame) (r : Recording) : Prop := f.Records r.holder r.method r.bci

/-- No two frames are `StoredFrame.IsOf` one recording. -/
theorem StoredFrame.leftUnique_isOf : Relator.LeftUnique StoredFrame.IsOf := by
  rintro ⟨holder, ordinal, location, name⟩ ⟨holder', ordinal', location', name'⟩ r h h'
  have hlocation : location = location' := Location.eq_of_halves
    (h.bci_eq.trans h'.bci_eq.symm) (h.version_eq.trans h'.version_eq.symm)
  have hholder : holder = holder' := h.holder_eq.trans h'.holder_eq.symm
  have hordinal : ordinal = ordinal' := h.ordinal_eq.trans h'.ordinal_eq.symm
  have hname : name = name' := h.name_eq.trans h'.name_eq.symm
  rw [hholder, hordinal, hlocation, hname]

namespace BuildStep

/-- Takes the step: `Builder.push`, `Builder.expand` or `Builder.markHiddenTop`. -/
def perform (step : BuildStep) (b : Builder) (m : Memory) :
    Except (Failure TraceError) Unit × Builder × Memory :=
  match step with
  | push holder method bci => b.push m holder method bci
  | expand => b.expand m
  | markHiddenTop => b.markHiddenTop m

/-- What the step records, if it is a push. -/
def recording? : BuildStep → Option Recording
  | push holder method bci => some ⟨holder, method, bci⟩
  | expand | markHiddenTop => none

/-- The step is a `Builder.markHiddenTop`. -/
def isMark : BuildStep → Bool
  | markHiddenTop => true
  | push .. | expand => false

/-- The step marks the innermost frame as hidden or pushes an index that passes `Location.fits`. -/
def Storable : BuildStep → Prop
  | push _ _ bci => Location.fits bci = true
  | markHiddenTop => True
  | expand => False

end BuildStep

/-- What the pushes among some steps record, in order. -/
def recordings (steps : List BuildStep) : List Recording := steps.filterMap BuildStep.recording?

namespace Builder

/-- Takes steps one after the other by `BuildStep.perform`, up to the first that fails. -/
def performAll : List BuildStep → Builder → Memory →
    Except (Failure TraceError) Unit × Builder × Memory
  | [], b, m => (.ok (), b, m)
  | step :: steps, b, m =>
    match step.perform b m with
    | (.error e, b, m) => (.error e, b, m)
    | (.ok (), b, m) => performAll steps b m

/-- The builders that come about when stores are built, finished and filled again by `Builder.reopen`,
    with whatever memory there is at each moment and whether the steps succeed or fail. -/
inductive Opened : Builder → Prop
  | start {chunkSize : Nat} {m m' : Memory} {b : Builder}
      (h : Builder.start chunkSize m = (.ok b, m')) : Opened b
  | step {b : Builder} (h : Opened b) (step : BuildStep) (m : Memory) :
      Opened (step.perform b m).2.1
  | reopen {b : Builder} (h : Opened b) (m m' : Memory) :
      Opened (Builder.reopen (b.finish m).1 m').1

end Builder

namespace Store

/-- The stores that `Builder.finish` leaves in some history. -/
def Finished (s : Store) : Prop := ∃ b m, Builder.Opened b ∧ s = (b.finish m).1

/-- Builds a new store by `Builder.performAll`.  If a step fails, the builder is given up. -/
def build (chunkSize : Nat) (steps : List BuildStep) (m : Memory) :
    Except (Failure TraceError) Store × Memory :=
  match Builder.start chunkSize m with
  | (.error e, m) => (.error e, m)
  | (.ok b, m) =>
    match Builder.performAll steps b m with
    | (.error e, b, m) => (.error e, b.abandon m)
    | (.ok (), b, m) =>
      let (s, m) := b.finish m
      (.ok s, m)

/-- Fills a store again by `Builder.performAll`.  If a step fails, the builder is given up. -/
def refill (s : Store) (steps : List BuildStep) (m : Memory) :
    Except (Failure TraceError) Store × Memory :=
  let (b, m) := Builder.reopen s m
  match Builder.performAll steps b m with
  | (.error e, b, m) => (.error e, b.abandon m)
  | (.ok (), b, m) =>
    let (s, m) := b.finish m
    (.ok s, m)

end Store

/-! ## Every store of a history can be filled again -/

namespace Store

/-- A change to a chunk that keeps `Chunk.Fits` keeps `Store.Usable`. -/
private theorem Usable.modify {s : Store} (hs : s.Usable) (i : Nat) {g : Chunk → Chunk}
    (hg : ∀ c : Chunk, c.Fits s.chunkSize → (g c).Fits s.chunkSize) :
    Usable { s with chunks := s.chunks.modify i g } where
  chunkSize_pos := hs.chunkSize_pos
  chunks_ne_nil := by
    rw [Array.toList_modify, Ne, List.modify_eq_nil_iff]
    exact hs.chunks_ne_nil
  fits := Chunk.forall_mem_modify hs.fits i hg

/-- A chunk that fits keeps `Store.Usable`. -/
private theorem Usable.push {s : Store} (hs : s.Usable) {c : Chunk} (hc : c.Fits s.chunkSize) :
    Usable { s with chunks := s.chunks.push c } where
  chunkSize_pos := hs.chunkSize_pos
  chunks_ne_nil := by simp
  fits := by
    intro d hd
    rw [Array.toList_push, List.mem_append, List.mem_singleton] at hd
    rcases hd with hd | rfl
    · exact hs.fits d hd
    · exact hc

/-- The marker has no part in `Store.Usable`. -/
theorem Usable.withHiddenTop {s : Store} (hs : s.Usable) (marker : Option BoxedBool) :
    Usable { s with hiddenTop := marker } := ⟨hs.chunkSize_pos, hs.chunks_ne_nil, hs.fits⟩

end Store

namespace Builder

variable {b b' : Builder} {m m' : Memory}

/-- `Builder.write` keeps `Store.Usable`. -/
private theorem usable_write (hb : b.store.Usable) (hslot : b.slot < b.store.chunkSize) (f : StoredFrame) :
    (b.write f).store.Usable :=
  hb.modify b.current fun _ hc => hc.write hslot f

/-- `Builder.advance` keeps `Store.Usable`. -/
private theorem usable_advance (hb : b.store.Usable) (id : Nat) : (b.advance id).store.Usable :=
  hb.modify b.current fun _ hc => ⟨hc.capacity_eq, hc.size_le⟩

/-- However `Builder.expand` goes, the store stays usable; if it succeeds, there is a free slot. -/
theorem usable_expand (hb : b.store.Usable) {r : Except (Failure TraceError) Unit}
    (h : b.expand m = (r, b', m')) :
    b'.store.Usable ∧ (r = .ok () → b'.slot < b'.store.chunkSize) := by
  rcases expand_cases h with ⟨⟨e, rfl⟩, rfl⟩ | ⟨-, -, -, rfl⟩ | ⟨-, -, reservation, rfl⟩
  · exact ⟨hb, fun hr => nomatch hr⟩
  · exact ⟨usable_advance hb _, fun _ => hb.chunkSize_pos⟩
  · exact ⟨usable_advance (hb.push (Chunk.fits_empty _ reservation)) _, fun _ => hb.chunkSize_pos⟩

/-- However `Builder.push` goes, the store stays usable. -/
private theorem usable_push (hb : b.store.Usable) {holder : Class} {method : Method} {bci : Int}
    {r : Except (Failure TraceError) Unit} (h : b.push m holder method bci = (r, b', m')) :
    b'.store.Usable := by
  rcases push_cases h with ⟨-, rfl⟩ | ⟨-, f, d, -, rfl, ⟨hslot, rfl⟩ | ⟨-, m'', hexpand⟩⟩
  · exact hb
  · exact usable_write hb hslot f
  · obtain ⟨husable, hslot⟩ := usable_expand hb hexpand
    exact usable_write husable (hslot rfl) f

/-- However `Builder.markHiddenTop` goes, the store stays usable. -/
private theorem usable_markHiddenTop (hb : b.store.Usable) {r : Except (Failure TraceError) Unit}
    (h : b.markHiddenTop m = (r, b', m')) : b'.store.Usable := by
  rcases markHiddenTop_cases h with ⟨-, rfl⟩ | ⟨-, -, rfl⟩ | ⟨-, marker, -, rfl⟩
  · exact hb
  · exact hb
  · exact hb.withHiddenTop _

/-- `Builder.finish` leaves a usable store. -/
theorem usable_finish (hb : b.store.Usable) (m : Memory) : (b.finish m).1.Usable := by
  cases hreuse : b.reuse with
  | true =>
    rw [finish_of_reuse hreuse]
    -- Slots are only freed
    refine hb.modify b.current fun c hc => ⟨hc.capacity_eq, ?_⟩
    have hle := hc.size_le
    simp only [Chunk.clearFrom, Array.take_eq_extract, Array.size_extract]
    omega
  | false =>
    rw [finish_of_new hreuse]
    exact hb

/-- The store of a `Builder.Sound` builder is usable. -/
theorem Sound.usable (hb : b.Sound) : b.store.Usable := by
  obtain ⟨full, last, spare, hshape, -⟩ := hb
  have hchunks := hshape.chunks_eq
  refine ⟨hshape.chunkSize_pos, by simp [hchunks], fun c hc => ?_⟩
  rw [hchunks, List.mem_append, List.mem_cons] at hc
  rcases hc with hc | rfl | hc
  · exact Chunk.fits_of_linked hshape.linked c hc
  · exact hshape.last_fits
  · exact hshape.spare_fits c hc

/-- Every step of a `Builder.Opened` history keeps the store usable. -/
theorem Opened.usable (h : b.Opened) : b.store.Usable := by
  induction h with
  | start h => exact (start_ok h).1.sound.usable
  | step h step m ih =>
    cases step with
    | push holder method bci => exact usable_push ih rfl
    | expand => exact (usable_expand ih rfl).1
    | markHiddenTop => exact usable_markHiddenTop ih rfl
  | reopen h m m' ih => exact (blank_reopen (usable_finish ih m) m').sound.usable

end Builder

/-- A `Store.Finished` store can be filled again, whatever has happened to it. -/
theorem Store.Finished.usable {s : Store} (h : s.Finished) : s.Usable := by
  obtain ⟨b, m, hb, rfl⟩ := h
  exact Builder.usable_finish hb.usable m

/-! ## The frame written last -/

namespace Builder

variable {b b' : Builder} {m m' : Memory}

/-- The frame in the slot in front of the cursor, which was written last unless the cursor has just
    moved to another chunk. -/
def newest? (b : Builder) : Option StoredFrame :=
  (b.store.chunks[b.current]?).bind (·.frames[b.slot - 1]?)

/-- The cursor stands in a chunk of the arena, on an occupied slot or the first free one. -/
def Placed (b : Builder) : Prop :=
  ∃ c, b.store.chunks[b.current]? = some c ∧ b.slot ≤ c.frames.size

/-- A cursor in front of a chunk that is there is `Builder.Placed`. -/
private theorem placed_of_slot_zero (hcurrent : b.current < b.store.chunks.size) (hslot : b.slot = 0) :
    b.Placed :=
  ⟨_, Array.getElem?_eq_getElem hcurrent, hslot ▸ Nat.zero_le _⟩

/-- What `Builder.write` writes is found in front of the cursor by `Builder.newest?`. -/
private theorem placed_write (hb : b.Placed) (f : StoredFrame) :
    (b.write f).Placed ∧ (b.write f).newest? = some f := by
  obtain ⟨c, hc, hslot⟩ := hb
  have hwrite : (b.write f).store.chunks[(b.write f).current]? = some (c.write b.slot f) := by
    rw [write_eq, Array.getElem?_modify, if_pos rfl, hc]
    rfl
  -- The slot is an occupied one or the first free one
  have hget : (c.write b.slot f).frames[b.slot]? = some f := by
    rw [Chunk.write_eq]
    split
    · rename_i hlt
      exact Array.getElem?_setIfInBounds_self_of_lt hlt
    · have heq : b.slot = c.frames.size := by omega
      rw [heq]
      exact Array.getElem?_push_size
  refine ⟨⟨_, hwrite, ?_⟩, ?_⟩
  · rw [Chunk.size_frames_write f hslot]
    exact Nat.le_max_right _ _
  · rw [newest?, hwrite]
    exact hget

/-- However `Builder.expand` goes, the cursor is `Builder.Placed`. -/
theorem placed_expand (hb : b.Placed) {r : Except (Failure TraceError) Unit}
    (h : b.expand m = (r, b', m')) : b'.Placed := by
  rcases expand_cases h with ⟨-, rfl⟩ | ⟨-, -, hlt, rfl⟩ | ⟨-, -, reservation, rfl⟩
  · exact hb
  · refine placed_of_slot_zero ?_ rfl
    rw [advance_eq, Array.size_modify]
    exact hlt
  · -- The new chunk has the number that the arena had as its size
    refine placed_of_slot_zero ?_ rfl
    rw [advance_eq, addChunk_eq, Array.size_modify, Array.size_push]
    exact Nat.lt_succ_self _

/-- After a `Builder.push` that succeeds the record of the activation is what was written last. -/
theorem placed_push (hb : b.Placed) {holder : Class} {method : Method} {bci : Int}
    {r : Except (Failure TraceError) Unit} (h : b.push m holder method bci = (r, b', m')) :
    b'.Placed ∧ (r = .ok () → ∃ f : StoredFrame, b'.newest? = some f ∧
      f.Records holder method bci) := by
  rcases push_cases h with ⟨⟨e, rfl⟩, rfl⟩ | ⟨-, f, d, hrecords, rfl, hmoved⟩
  · exact ⟨hb, fun hr => nomatch hr⟩
  · -- The record was written where the cursor stood once it had been moved
    have hd : d.Placed := by
      rcases hmoved with ⟨-, rfl⟩ | ⟨-, m'', hexpand⟩
      · exact hb
      · exact placed_expand hb hexpand
    obtain ⟨hplaced, hnewest⟩ := placed_write hd f
    exact ⟨hplaced, fun _ => ⟨f, hnewest, hrecords⟩⟩

/-- However `Builder.markHiddenTop` goes, the cursor is `Builder.Placed`. -/
private theorem placed_markHiddenTop (hb : b.Placed) {r : Except (Failure TraceError) Unit}
    (h : b.markHiddenTop m = (r, b', m')) : b'.Placed := by
  rcases markHiddenTop_cases h with ⟨-, rfl⟩ | ⟨-, -, rfl⟩ | ⟨-, marker, -, rfl⟩
  · exact hb
  · exact hb
  · exact hb

/-- The cursor of a `Builder.Blank` builder is `Builder.Placed`. -/
theorem Blank.placed (hb : b.Blank) : b.Placed := by
  obtain ⟨full, last, spare, hshape, -⟩ := hb.sound
  refine ⟨last, ?_, hshape.slot_le⟩
  rw [hshape.current_eq]
  exact Store.getElem?_chunks_of_eq hshape.chunks_eq

/-- Throughout a `Builder.Opened` history the cursor is `Builder.Placed`. -/
theorem Opened.placed (h : b.Opened) : b.Placed := by
  induction h with
  | start h => exact (start_ok h).1.placed
  | step h step m ih =>
    cases step with
    | push holder method bci => exact (placed_push ih rfl).1
    | expand => exact placed_expand ih rfl
    | markHiddenTop => exact placed_markHiddenTop ih rfl
  | reopen h m m' ih => exact (blank_reopen (usable_finish h.usable m) m').placed

end Builder

/-! ## Going on with a history -/

/-- A `Builder.Opened` history goes on with any steps, up to the first that fails. -/
private theorem Builder.Opened.performAll {b : Builder} (h : b.Opened) (steps : List BuildStep)
    (m : Memory) : (performAll steps b m).2.1.Opened := by
  induction steps generalizing b m with
  | nil => exact h
  | cons step steps ih =>
    have hstep := h.step step m
    simp only [Builder.performAll]
    split
    · rename_i hperform
      rw [hperform] at hstep
      exact hstep
    · rename_i hperform
      rw [hperform] at hstep
      exact ih hstep _

namespace Store

/-- Every store by `Store.build` is `Store.Finished`. -/
theorem finished_of_build {chunkSize : Nat} {steps : List BuildStep} {m m' : Memory} {s : Store}
    (h : build chunkSize steps m = (.ok s, m')) : s.Finished := by
  unfold build at h
  split at h
  · exact nomatch h
  · rename_i b m₁ hstart
    have hopened := (Builder.Opened.start hstart).performAll steps m₁
    split at h
    · exact nomatch h
    · rename_i hperform
      rw [hperform] at hopened
      cases h
      exact ⟨_, _, hopened, rfl⟩

end Store

/-! ## Steps that can be stored -/

namespace Builder

/-- What `Builder.performAll` has done if all steps succeeded. -/
structure Performed (steps : List BuildStep) (b b' : Builder) : Prop where
  sound : b'.Sound
  written_eq : ∃ fs, List.Forall₂ StoredFrame.IsOf fs (recordings steps) ∧
    b'.written = b.written ++ fs
  same : b.SameStore b'
  hidden_eq : b'.store.hasHiddenTop = (b.store.hasHiddenTop || steps.any BuildStep.isMark)

/-- Without steps `Builder.Performed` holds of a builder and itself. -/
private theorem Performed.nil {b : Builder} (hb : b.Sound) : Performed [] b b where
  sound := hb
  written_eq := ⟨[], .nil, (List.append_nil _).symm⟩
  same := SameStore.refl b
  hidden_eq := by rw [List.any_nil, Bool.or_false]

/-- `Builder.Performed` for a step and then for the steps behind it. -/
private theorem Performed.cons {step : BuildStep} {steps : List BuildStep} {b b' b'' : Builder}
    (h : Performed [step] b b') (h' : Performed steps b' b'') : Performed (step :: steps) b b'' := by
  obtain ⟨fs, hfs, hwritten⟩ := h.written_eq
  obtain ⟨fs', hfs', hwritten'⟩ := h'.written_eq
  refine ⟨h'.sound, ⟨fs ++ fs', ?_, ?_⟩, h.same.trans h'.same, ?_⟩
  · have hsplit : recordings (step :: steps) = recordings [step] ++ recordings steps :=
      List.filterMap_append (l := [step])
    rw [hsplit]
    exact List.rel_append hfs hfs'
  · rw [hwritten', hwritten, List.append_assoc]
  · rw [h'.hidden_eq, h.hidden_eq, List.any_cons, List.any_cons, List.any_nil, Bool.or_false,
      Bool.or_assoc]

/-- With memory that never refuses a `BuildStep.Storable` step succeeds, and the books are kept. -/
private theorem perform_of_storable {n : Nat} {m₀ m : Memory} {b : Builder} {step : BuildStep}
    (hstep : step.Storable) (hm₀ : m₀.NeverRefusesInScope) (hb : b.Sound)
    (hspent : Spent n m₀ b m) :
    ∃ b' m', step.perform b m = (.ok (), b', m') ∧ Performed [step] b b' ∧ Spent n m₀ b' m' := by
  cases step with
  | push holder method bci =>
    obtain ⟨b', m', hpush, hspent'⟩ := hspent.push hm₀ hb holder method hstep
    -- A push writes one frame and leaves the marker alone
    have hpushed := hb.push_ok hpush
    obtain ⟨f, hrecords, hwritten⟩ := hpushed.written_eq
    refine ⟨b', m', hpush, ⟨hpushed.sound, ⟨[f], .cons hrecords .nil, hwritten⟩, hpushed.same, ?_⟩,
      hspent'⟩
    simp only [Store.hasHiddenTop, hpushed.hiddenTop_eq, List.any_cons, BuildStep.isMark,
      List.any_nil, Bool.or_self, Bool.or_false]
  | expand => exact hstep.elim
  | markHiddenTop =>
    obtain ⟨b', m', hmark, hspent'⟩ := hspent.markHiddenTop hm₀
    -- Marking writes nothing
    have hmarked := hb.markHiddenTop_ok hmark
    refine ⟨b', m', hmark, ⟨hmarked.sound, ⟨[], .nil, ?_⟩, hmarked.same, ?_⟩, hspent'⟩
    · rw [hmarked.written_eq, List.append_nil]
    · rw [hmarked.hidden_eq, List.any_cons, BuildStep.isMark, Bool.true_or, Bool.or_true]

/-- With memory that never refuses `BuildStep.Storable` steps all succeed, and the books are kept. -/
theorem performAll_of_storable {n : Nat} {m₀ : Memory} (hm₀ : m₀.NeverRefusesInScope)
    {steps : List BuildStep} (hsteps : ∀ step ∈ steps, step.Storable) {b : Builder} {m : Memory}
    (hb : b.Sound) (hspent : Spent n m₀ b m) :
    ∃ b' m', performAll steps b m = (.ok (), b', m') ∧ Performed steps b b' ∧
      Spent n m₀ b' m' := by
  induction steps generalizing b m with
  | nil => exact ⟨b, m, rfl, Performed.nil hb, hspent⟩
  | cons step steps ih =>
    obtain ⟨b', m', hperform, hperformed, hspent'⟩ :=
      perform_of_storable (hsteps step List.mem_cons_self) hm₀ hb hspent
    obtain ⟨b'', m'', hrest, hperformed', hspent''⟩ :=
      ih (fun s hs => hsteps s (List.mem_cons_of_mem step hs)) hperformed.sound hspent'
    exact ⟨b'', m'', by simp only [performAll, hperform, hrest], hperformed.cons hperformed',
      hspent''⟩

/-- Whatever can be stored is pushed by `Builder.push` somewhere. -/
theorem exists_push (holder : Class) (method : Method) {bci : Int}
    (hfits : Location.fits bci = true) : ∃ (b b' : Builder) (m m' : Memory), b.Opened ∧
      b.push m holder method bci = (.ok (), b', m') := by
  have hmemory : (Memory.ofLimit none).NeverRefuses := ⟨⟨nofun, by decide⟩, rfl⟩
  obtain ⟨b, hstart⟩ := start_of_neverRefuses Nat.one_pos hmemory
  have hscope := hmemory.openScope.charged 1 (Chunk.heapBytes 1)
  have hblank := (start_ok hstart).1
  obtain ⟨b', m', hpush, -⟩ :=
    (hblank.spent hscope).push hscope hblank.sound holder method hfits
  exact ⟨b, b', _, m', .start hstart, hpush⟩

end Builder

end StackTrace
