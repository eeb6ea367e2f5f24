import StackTrace.Proofs.Capture.Depth

/-!
# What a store keeps alive that is filled again

A store is filled again from its first chunk on, and finishing frees the slots behind the cursor in
the chunk where the cursor stands.  The chunks behind that one are unlinked and left as they were: the
classes of the frames in them stay alive, though no frame of the trace refers to them any more.

So a refill keeps alive what it replays, and besides that whatever the earlier trace had in the chunks
that the refill did not come to.

## Key results

- `Builder.Refills.behind`: the chunks behind the cursor are those of the store that is filled again
- `Store.owners_refilled`: which classes a store keeps alive that was filled again
- `Store.not_replayed_only`: a class can be kept alive by a trace that was replaced
-/

namespace StackTrace

namespace Builder

/-- The builders that come about from `Builder.reopen` while a store is filled again, whether a step
    succeeds or not. -/
inductive Refills (s : Store) : Builder → Prop
  | reopen (m : Memory) : Refills s (Builder.reopen s m).1
  | push {b : Builder} (h : Refills s b) (holder : Class) (method : Method) (bci : Int)
      (m : Memory) : Refills s (b.push m holder method bci).2.1
  | markHiddenTop {b : Builder} (h : Refills s b) (m : Memory) :
      Refills s (b.markHiddenTop m).2.1

/-- The builder uses a store again, and behind its cursor the chunks are those of `s`. -/
structure Behind (s : Store) (b : Builder) : Prop where
  sound : b.Sound
  reuse_eq : b.reuse = true
  chunkSize_eq : b.store.chunkSize = s.chunkSize
  chunks_eq : b.store.chunks.toList.drop (b.current + 1) = s.chunks.toList.drop (b.current + 1)

section Behind

variable {s : Store} {b b' : Builder} {m m' : Memory}

/-- A change by `Array.modify` to the chunk that the cursor stands in is not seen behind it. -/
private theorem drop_toList_modify (cs : Array Chunk) (i : Nat) (g : Chunk → Chunk) :
    (cs.modify i g).toList.drop (i + 1) = cs.toList.drop (i + 1) := by
  rw [Array.toList_modify, List.drop_modify_of_lt _ _ _ _ (Nat.lt_succ_self i)]

/-- When `Builder.advance` moves the cursor on by a chunk, there is one chunk less behind it. -/
private theorem drop_advance (h : b.store.chunks.toList.drop (b.current + 1) =
    s.chunks.toList.drop (b.current + 1)) :
    (b.advance (b.current + 1)).store.chunks.toList.drop (b.current + 2) =
      s.chunks.toList.drop (b.current + 2) := by
  have hlt : b.current < b.current + 2 := by omega
  have hrest := congrArg (List.drop 1) h
  rw [List.drop_drop, List.drop_drop] at hrest
  rw [advance_eq, Array.toList_modify, List.drop_modify_of_lt _ _ _ _ hlt]
  exact hrest

/-- `Builder.expand` leaves what lies behind the chunk that it goes on in. -/
private theorem Behind.expand (hb : b.Behind s) (h : b.expand m = (.ok (), b', m')) :
    b'.store.chunks.toList.drop (b'.current + 1) = s.chunks.toList.drop (b'.current + 1) := by
  rcases expand_cases h with ⟨⟨e, he⟩, -⟩ | ⟨-, -, -, rfl⟩ | ⟨-, hlast, reservation, rfl⟩
  · cases he
  · exact drop_advance hb.chunks_eq
  · -- No chunk was left in the arena, of `s` or of the store that is being filled
    obtain ⟨full, last, spare, hshape, -⟩ := hb.sound
    have hsize : b.store.chunks.size = b.current + 1 := by
      have hcurrent := hshape.current_eq
      have hle := hlast hb.reuse_eq
      have heq := hshape.size_eq
      omega
    have hnone : s.chunks.toList.drop (b.current + 1) = [] := by
      rw [← hb.chunks_eq]
      exact List.drop_of_length_le (by rw [Array.length_toList]; omega)
    have hrest := congrArg (List.drop 1) hnone
    rw [List.drop_drop, List.drop_nil] at hrest
    rw [hsize]
    refine (List.drop_of_length_le ?_).trans hrest.symm
    simp [advance_eq, addChunk_eq]
    omega

/-- `Builder.push` keeps `Builder.Behind`. -/
private theorem Behind.push (hb : b.Behind s) (holder : Class) (method : Method) (bci : Int)
    (m : Memory) : (b.push m holder method bci).2.1.Behind s := by
  obtain ⟨r, b', m', hpush⟩ : ∃ r b' m', b.push m holder method bci = (r, b', m') :=
    ⟨_, _, _, rfl⟩
  rw [hpush]
  rcases push_cases hpush with ⟨-, rfl⟩ | ⟨rfl, f, d, -, rfl, hmoved⟩
  · exact hb
  · have hpushed := hb.sound.push_ok hpush
    -- Wherever the frame goes, the write changes only the chunk under the cursor
    have hbehind : d.store.chunks.toList.drop (d.current + 1) =
        s.chunks.toList.drop (d.current + 1) := by
      rcases hmoved with ⟨-, rfl⟩ | ⟨-, m'', hexpand⟩
      · exact hb.chunks_eq
      · exact hb.expand hexpand
    refine ⟨hpushed.sound, hpushed.same.reuse_eq.trans hb.reuse_eq,
      hpushed.same.chunkSize_eq.trans hb.chunkSize_eq, ?_⟩
    rw [write_eq]
    exact (drop_toList_modify _ _ _).trans hbehind

/-- `Builder.markHiddenTop` keeps `Builder.Behind`. -/
private theorem Behind.markHiddenTop (hb : b.Behind s) (m : Memory) :
    (b.markHiddenTop m).2.1.Behind s := by
  obtain ⟨r, b', m', hmark⟩ : ∃ r b' m', b.markHiddenTop m = (r, b', m') := ⟨_, _, _, rfl⟩
  rw [hmark]
  rcases markHiddenTop_cases hmark with ⟨-, rfl⟩ | ⟨-, -, rfl⟩ | ⟨-, marker, -, rfl⟩
  · exact hb
  · exact hb
  · exact ⟨hb.sound.withHiddenTop _, hb.reuse_eq, hb.chunkSize_eq, hb.chunks_eq⟩

/-- However a store is filled again by `Builder.Refills`, the chunks behind the cursor are as they
    were. -/
theorem Refills.behind (hs : s.Usable) (h : b.Refills s) : b.Behind s := by
  induction h with
  | reopen m => exact ⟨(blank_reopen hs m).sound, rfl, rfl, rfl⟩
  | push h holder method bci m ih => exact ih.push holder method bci m
  | markHiddenTop h m ih => exact ih.markHiddenTop m

end Behind

/-- After `Builder.finish`, one chunk is enough for as many frames as it has slots. -/
private theorem Sound.chunkCount_finish_of_depth_le {b : Builder} (hb : b.Sound)
    (hdepth : b.depth ≤ b.store.chunkSize) (m : Memory) : (b.finish m).1.chunkCount = 1 := by
  have hpos := hb.usable.chunkSize_pos
  have hdiv : (b.depth + b.store.chunkSize - 1) / b.store.chunkSize < 2 :=
    Nat.div_lt_of_lt_mul (by omega)
  rw [hb.chunkCount_finish, hb.current_eq]
  omega

end Builder

namespace Store

/-- `Store.owners` are the classes of all frames in the chunks. -/
private theorem owners_eq_contents (s : Store) :
    s.owners = (Chunk.contents s.chunks.toList).map (·.holder) := by
  rw [owners, Chunk.contents, List.map_flatMap]

/-- The frames in the chunks of `s` that lie behind the trace of `s'`. -/
def leftBehind (s s' : Store) : List StoredFrame :=
  Chunk.contents (s.chunks.toList.drop s'.chunkCount)

/-- A store that `s` was filled again into keeps alive the classes of the frames it replays and
    those of the frames that are left in the chunks behind. -/
private theorem owners_of_refills {s : Store} (hs : s.Usable) {b : Builder} (h : b.Refills s)
    (m : Memory) : (b.finish m).1.owners =
      ((b.finish m).1.frames ++ s.leftBehind (b.finish m).1).map (·.holder) := by
  have hb := h.behind hs
  obtain ⟨full, last, spare, hlayout, hcurrent, -, -⟩ := hb.sound.layout_finish m
  -- The spare chunks are those behind the cursor, which are those of `s`
  have hspare : spare = s.chunks.toList.drop (full.length + 1) := by
    have hdrop : (full ++ last :: spare).drop (full.length + 1) = spare := by simp
    rw [hcurrent, ← hb.chunks_eq, ← hdrop, ← hlayout.chunks_eq, hcurrent,
      Builder.finish_of_reuse hb.reuse_eq, Builder.drop_toList_modify]
  rw [leftBehind, hlayout.chunkCount_eq, ← hspare, hlayout.frames_eq, owners_eq_contents,
    hlayout.chunks_eq, Chunk.contents_append, Chunk.contents_cons, List.append_assoc]

end Store

/-! ## Prepared stores -/

section RefillAll

variable {p : Program} {outside : ClassSet} {limit : Nat} {error : Option DebugInfo.Error}
  {b : Builder} {m : Memory}

/-- `refillAll` takes no steps but pushes. -/
private theorem refillAll_refills {s : Store} (as : List Activation) (hb : b.Refills s) :
    (refillAll p outside limit error b m as).2.1.Refills s := by
  -- Induction on what is left of the walk
  induction as generalizing b m with
  | nil =>
    cases error with
    | none => exact hb
    | some e => exact hb
  | cons a as ih =>
    unfold refillAll
    simp only
    split
    · exact ih hb
    · rename_i holder _
      -- A push that fails ends it, and so does reaching the limit
      have hpushed := hb.push holder a.method a.bci m
      split
      · rename_i hpush
        rw [hpush] at hpushed
        exact hpushed
      · rename_i hpush
        rw [hpush] at hpushed
        split
        · exact hpushed
        · exact ih hpushed

/-- `refillAll` writes no more frames than the limit allows. -/
private theorem depth_refillAll_le (as : List Activation) (hb : b.Sound) (hroom : b.depth < limit) :
    (refillAll p outside limit error b m as).2.1.depth ≤ limit := by
  induction as generalizing b m with
  | nil =>
    cases error with
    | none => exact Nat.le_of_lt hroom
    | some e => exact Nat.le_of_lt hroom
  | cons a as ih =>
    unfold refillAll
    simp only
    split
    · exact ih hb hroom
    · split
      -- The push has failed, and nothing was written
      · rename_i hpush
        rw [Builder.push_error hpush]
        exact Nat.le_of_lt hroom
      · rename_i hpush
        have hpushed := hb.push_ok hpush
        -- One more frame is written, and that may have been the last one
        have hdepth := hpushed.depth_eq
        split
        · exact Nat.le_trans (Nat.le_of_eq hdepth) hroom
        · exact ih hpushed.sound (by omega)

/-- `refillAll` on a store that `Builder.reopen` opens again leaves the trace in the first chunk. -/
private theorem refillAll_reopen (p : Program) (outside : ClassSet) (error : Option DebugInfo.Error)
    {s : Store} (hs : s.Usable) (m : Memory) (as : List Activation) :
    let b := (refillAll p outside s.chunkSize error (Builder.reopen s m).1 (Builder.reopen s m).2
      as).2.1
    b.Refills s ∧ ∀ m, (b.finish m).1.chunkCount = 1 := by
  intro b
  have hblank := Builder.blank_reopen hs m
  have hrefills : b.Refills s := refillAll_refills as (.reopen m)
  have hbehind := hrefills.behind hs
  have hdepth : b.depth ≤ s.chunkSize :=
    depth_refillAll_le as hblank.sound (hblank.depth_eq ▸ hs.chunkSize_pos)
  refine ⟨hrefills, hbehind.sound.chunkCount_finish_of_depth_le ?_⟩
  rw [hbehind.chunkSize_eq]
  exact hdepth

end RefillAll

namespace Universe

/-- After `Universe.refillStackTrace` the throwable has a store that its own one was filled again into.
    The trace lies in the first chunk. -/
theorem refillStackTrace_refills {u : Universe} (henabled : u.config.backtrace.enabled = true)
    (others : List ClassId) {t : Throwable} {s : Store} (hs : s.Usable)
    (htrace : t.head.trace = some s) (thread : ManagedThread) :
    ∃ (b : Builder) (m : Memory), b.Refills s ∧ (b.finish m).1.chunkCount = 1 ∧
      (u.refillStackTrace others t thread).2.1.head.trace = some (b.finish m).1 := by
  simp only [refillStackTrace, henabled, Bool.not_true, Bool.false_eq_true, if_false,
    Throwable.takeTrace, htrace]
  obtain ⟨hrefills, hcount⟩ := refillAll_reopen u.program
    (u.owned ((t.modifyHead ({ · with trace := none, depth := 0 })).owners ++ others))
    (Walk.ofStack thread.stack).error hs u.memory (Walk.ofStack thread.stack).activations
  exact ⟨_, _, hrefills, hcount _, rfl⟩

end Universe

namespace Store

/-- What becomes of the classes that `s` kept alive when it is filled again and then is `s'`. -/
structure RefilledTo (s s' : Store) : Prop where
  owners_eq : s'.owners = (s'.frames ++ s.leftBehind s').map (·.holder)
  replayed_iff : (∀ id ∈ s'.owners, ∃ f ∈ s'.frames, f.holder = id) ↔
    ∀ f ∈ s.leftBehind s', ∃ g ∈ s'.frames, g.holder = f.holder

/-- What `Builder.Refills` comes to is `Store.RefilledTo`. -/
private theorem refilledTo_of_refills {s : Store} (hs : s.Usable) {b : Builder} (h : b.Refills s)
    (m : Memory) : s.RefilledTo (b.finish m).1 where
  owners_eq := owners_of_refills hs h m
  replayed_iff := by
    rw [owners_of_refills hs h m]
    constructor
    · intro hreplayed f hf
      exact hreplayed f.holder (List.mem_map_of_mem (List.mem_append_right _ hf))
    · intro hleft id hid
      obtain ⟨f, hf, rfl⟩ := List.mem_map.mp hid
      rcases List.mem_append.mp hf with hf | hf
      · exact ⟨f, hf, rfl⟩
      · exact hleft f hf

/-- A store that was filled again, by any pushes or by `Universe.refillStackTrace` for any throwable,
    keeps alive the classes of the frames that it replays, and besides them those of the frames that the
    earlier trace has left in the chunks behind.  So it keeps nothing else alive exactly if the classes
    left there are all replayed; for a throwable everything counts as left but the first chunk. -/
theorem owners_refilled {s : Store} (hs : s.Finished) :
    (∀ (b : Builder) (m : Memory), b.Refills s → s.RefilledTo (b.finish m).1) ∧
    ∀ (u : Universe) (others : List ClassId) (t : Throwable) (thread : ManagedThread),
      u.config.backtrace.enabled = true → t.head.trace = some s →
      ∃ s', (u.refillStackTrace others t thread).2.1.head.trace = some s' ∧ s'.chunkCount = 1 ∧
        s.RefilledTo s' := by
  constructor
  · intro b m hrefills
    exact refilledTo_of_refills hs.usable hrefills m
  · intro u others t thread henabled htrace
    obtain ⟨b, m, hrefills, hcount, htrace'⟩ :=
      Universe.refillStackTrace_refills henabled others hs.usable htrace thread
    exact ⟨_, htrace', hcount, refilledTo_of_refills hs.usable hrefills m⟩

/-- A class by its number, and a method of it. -/
private def widget (id : Nat) : Class × Method :=
  (⟨⟨id⟩, ⟨"acme/Widget", 0⟩, none, none, none, ⟨0, none, #[]⟩, [], 0⟩,
    ⟨⟨id⟩, 0, 0, 0, ⟨"run", 1⟩, ⟨"()V", 2⟩, {}, 1, []⟩)

/-- `Builder.Refills` in chunks of one slot: a frame of class 0 that was called from one of class 1, and
    then a trace of the first one alone, in the same store. -/
private theorem exists_shorter_refill :
    ∃ (s : Store) (b : Builder) (m : Memory), s.Finished ∧ b.Refills s ∧
      (b.finish m).1.owners = [⟨0⟩, ⟨1⟩] ∧ (b.finish m).1.frames.map (·.holder) = [⟨0⟩] := by
  obtain ⟨s, m, hbuild⟩ : ∃ s m, build 1
      [.push (widget 0).1 (widget 0).2 0, .push (widget 1).1 (widget 1).2 0]
      (Memory.ofLimit none) = (.ok s, m) := ⟨_, _, rfl⟩
  refine ⟨s, _, m, finished_of_build hbuild,
    .push (.reopen m) (widget 0).1 (widget 0).2 0 m, ?_, ?_⟩
  · cases hbuild
    decide +kernel
  · cases hbuild
    decide +kernel

/-- `owners_refilled` where the frame of class 1 is left behind. -/
theorem owners_refilled_shorter :
    ∃ s s' : Store, s.Finished ∧ s.RefilledTo s' ∧ s'.frames.map (·.holder) = [⟨0⟩] ∧
      (s.leftBehind s').map (·.holder) = [⟨1⟩] := by
  obtain ⟨s, b, m, hs, hrefills, howners, hframes⟩ := exists_shorter_refill
  have hrefilled := (owners_refilled hs).1 b m hrefills
  refine ⟨s, _, hs, hrefilled, hframes, ?_⟩
  have hleft : [⟨0⟩] ++ [⟨1⟩] = [⟨0⟩] ++ (s.leftBehind (b.finish m).1).map (·.holder) := by
    rw [← hframes, ← List.map_append, ← hrefilled.owners_eq, hframes]
    exact howners.symm
  exact (List.append_cancel_left hleft).symm

/-- `Store.owners` may hold a class though no frame of the trace refers to it any more. -/
theorem not_replayed_only : ¬ ∀ (s : Store) (b : Builder) (m : Memory), s.Finished → b.Refills s →
    ∀ id ∈ (b.finish m).1.owners, ∃ f ∈ (b.finish m).1.frames, f.holder = id := by
  intro hreplayed
  obtain ⟨s, b, m, hs, hrefills, howners, hframes⟩ := exists_shorter_refill
  have hclass : (⟨1⟩ : ClassId) ∈ (b.finish m).1.frames.map (·.holder) :=
    List.mem_map.mpr (hreplayed s b m hs hrefills ⟨1⟩ (by simp [howners]))
  rw [hframes] at hclass
  exact absurd hclass (by decide)

end Store

end StackTrace
