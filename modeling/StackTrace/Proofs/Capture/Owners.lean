import StackTrace.Proofs.Capture.Limits

/-!
# What a capture leaves alone, and what it keeps alive

Captures change the memory of a runtime and the throwable at hand; an out-of-memory error besides comes
out of the pool.  A trace owns the classes of its frames, and these come from the program: whatever
holds of all classes of a program holds of all that a trace owns, if it held of what the trace before
owned.

## Key results

- `Universe.world_fillInStackTrace`, `Universe.world_refillStackTrace`, `Universe.world_allocateTrace`:
  what a call leaves alone
- `Universe.owns_fillInStackTrace`, `Universe.owns_refillStackTrace`,
  `Universe.owns_outOfMemoryError`: what a throwable owns after a call
- `Store.holder_mem_owners`: a trace owns the class of each of its frames
-/

namespace StackTrace

/-! ## What a store owns -/

namespace Store

/-- All frames in the store, replayed or not, are of classes that satisfy `P`. -/
def Owns (P : ClassId → Prop) (s : Store) : Prop :=
  ∀ c ∈ s.chunks.toList, ∀ f ∈ c.frames.toList, P f.holder

variable {P : ClassId → Prop} {s : Store}

/-- A store owns (`Store.Owns`) exactly as its `Store.owners` do. -/
theorem owns_iff : s.Owns P ↔ ∀ id ∈ s.owners, P id := by
  simp only [Owns, owners, List.mem_flatMap, List.mem_map]
  constructor
  · rintro h id ⟨c, hc, f, hf, rfl⟩
    exact h c hc f hf
  · intro h c hc f hf
    exact h f.holder ⟨c, hc, f, hf, rfl⟩

/-- `Store.Owns` is kept by a change to a chunk that does not put in a frame of another class. -/
private theorem Owns.modify (h : s.Owns P) (i : Nat) {g : Chunk → Chunk}
    (hg : ∀ c, (∀ f ∈ c.frames.toList, P f.holder) → ∀ f ∈ (g c).frames.toList, P f.holder) :
    Owns P { s with chunks := s.chunks.modify i g } :=
  Chunk.forall_mem_modify h i hg

end Store

/-- `Chunk.write` puts in one frame, and may replace one. -/
private theorem Chunk.mem_frames_write {c : Chunk} {slot : Nat} {f g : StoredFrame}
    (h : g ∈ (c.write slot f).frames.toList) : g = f ∨ g ∈ c.frames.toList := by
  rw [write_eq] at h
  simp only at h
  split at h
  · rw [Array.toList_setIfInBounds] at h
    exact (List.mem_or_eq_of_mem_set h).symm
  · rw [Array.toList_push, List.mem_append, List.mem_singleton] at h
    exact h.symm

namespace Builder

variable {P : ClassId → Prop} {b b' : Builder} {m m' : Memory}

/-- `Builder.advance` keeps `Store.Owns`. -/
private theorem owns_advance (hb : b.store.Owns P) (id : Nat) : (b.advance id).store.Owns P :=
  hb.modify b.current fun _ hc => hc

/-- `Builder.expand` keeps `Store.Owns`. -/
private theorem owns_expand (hb : b.store.Owns P) {r : Except (Failure TraceError) Unit}
    (h : b.expand m = (r, b', m')) : b'.store.Owns P := by
  rcases expand_cases h with ⟨-, rfl⟩ | ⟨-, -, -, rfl⟩ | ⟨-, -, reservation, rfl⟩
  · exact hb
  · exact owns_advance hb _
  · -- The new chunk is empty
    refine owns_advance (fun c hc => ?_) _
    rw [addChunk_eq, Array.toList_push, List.mem_append, List.mem_singleton] at hc
    rcases hc with hc | rfl
    · exact hb c hc
    · intro f hf
      simp at hf

/-- `Builder.push` adds the class of the method that it records. -/
theorem owns_push (hb : b.store.Owns P) {holder : Class} (hholder : P holder.id) {method : Method}
    {bci : Int} {r : Except (Failure TraceError) Unit}
    (h : b.push m holder method bci = (r, b', m')) : b'.store.Owns P := by
  rcases push_cases h with ⟨-, rfl⟩ | ⟨-, f, d, hrecords, rfl, hmoved⟩
  · exact hb
  · have hd : d.store.Owns P := by
      rcases hmoved with ⟨-, rfl⟩ | ⟨-, m'', hexpand⟩
      · exact hb
      · exact owns_expand hb hexpand
    refine hd.modify d.current fun c hc g hg => ?_
    rcases Chunk.mem_frames_write hg with rfl | hg
    · exact hrecords.holder_eq ▸ hholder
    · exact hc g hg

/-- `Builder.markHiddenTop` keeps `Store.Owns`. -/
private theorem owns_markHiddenTop (hb : b.store.Owns P) {r : Except (Failure TraceError) Unit}
    (h : b.markHiddenTop m = (r, b', m')) : b'.store.Owns P := by
  rcases markHiddenTop_cases h with ⟨-, rfl⟩ | ⟨-, -, rfl⟩ | ⟨-, marker, -, rfl⟩
  · exact hb
  · exact hb
  · exact hb

/-- A store by `Builder.start` has no frame, so it owns nothing. -/
private theorem owns_start {chunkSize : Nat} (h : start chunkSize m = (.ok b, m')) : b.store.Owns P := by
  rcases start_cases h with ⟨e, he⟩ | ⟨-, reservation, hok⟩
  · cases he
  · cases hok
    intro c hc f hf
    rw [List.mem_singleton.mp hc] at hf
    simp at hf

/-- `Builder.finish` frees slots at most. -/
private theorem owns_finish (hb : b.store.Owns P) (m : Memory) : (b.finish m).1.Owns P := by
  cases hreuse : b.reuse with
  | true =>
    rw [finish_of_reuse hreuse]
    refine hb.modify b.current fun c hc f hf => hc f ?_
    simp only [Chunk.clearFrom, Array.take_eq_extract, Array.toList_extract] at hf
    exact List.mem_of_mem_drop (List.mem_of_mem_take hf)
  | false =>
    rw [finish_of_new hreuse]
    exact hb

end Builder

/-! ## Loops -/

/-- `P` holds of all classes that `Program.get?` finds. -/
def Program.All (p : Program) (P : ClassId → Prop) : Prop := ∀ id c, p.get? id = some c → P c.id

/-- What holds of all classes holds of the one that `Program.holder` gives. -/
private theorem Program.All.holder {p : Program} {P : ClassId → Prop} (hp : p.All P)
    {alive : ClassId → Bool} {method : Method} {c : Class}
    (h : p.holder alive method = some c) : P c.id := by
  rw [Program.holder] at h
  split at h
  · exact hp _ c h
  · cases h

section Loops

variable {P : ClassId → Prop} {b : Builder} {m : Memory} {error : Option DebugInfo.Error}

/-- `recordAll` adds classes that can be found, however it ends. -/
private theorem owns_recordAll {p : FilterPolicy} (hp : p.program.All P) {maxDepth : Nat} {f : FrameFilter}
    (as : List Activation) (hb : b.store.Owns P) :
    (recordAll p maxDepth error f b m as).2.1.store.Owns P := by
  -- Induction on what is left of the walk, with the filter and the builder as they then are
  induction as generalizing f b m with
  | nil =>
    unfold recordAll
    split
    · exact hb
    · split
      · exact hb
      · exact hb
  | cons a as ih =>
    unfold recordAll
    split
    · exact hb
    · split
      · exact ih hb
      -- The class of the activation was found, so the frame that is pushed may be owned
      · rename_i holder hholder
        split
        · split
          · rename_i hpush
            exact Builder.owns_push hb (hp.holder hholder) hpush
          · rename_i hpush
            exact ih (Builder.owns_push hb (hp.holder hholder) hpush)
        · split
          · split
            · rename_i hmark
              exact Builder.owns_markHiddenTop hb hmark
            · rename_i hmark
              exact ih (Builder.owns_markHiddenTop hb hmark)
          · exact ih hb
        · exact ih hb

/-- `refillAll` adds classes that can be found, however it ends. -/
private theorem owns_refillAll {p : Program} (hp : p.All P) {outside : ClassSet} {limit : Nat}
    (as : List Activation) (hb : b.store.Owns P) :
    (refillAll p outside limit error b m as).2.1.store.Owns P := by
  -- Induction on what is left of the walk; only a push puts in a frame
  induction as generalizing b m with
  | nil =>
    cases error with
    | none => exact hb
    | some e => exact hb
  | cons a as ih =>
    unfold refillAll
    simp only
    split
    · exact ih hb
    · rename_i holder hholder
      split
      · rename_i hpush
        exact Builder.owns_push hb (hp.holder hholder) hpush
      · rename_i hpush
        have hpushed := Builder.owns_push hb (hp.holder hholder) hpush
        split
        · exact hpushed
        · exact ih hpushed

end Loops

/-! ## Throwables -/

/-- All that a throwable owns satisfies `P`. -/
def Throwable.Owns (P : ClassId → Prop) (t : Throwable) : Prop := ∀ id ∈ t.owners, P id

namespace Throwable

variable {P : ClassId → Prop} {t : Throwable}

/-- What a throwable owns (`Throwable.Owns`) is told by its class, by what its trace owns, and by what
    its causes own. -/
private theorem owns_iff : t.Owns P ↔ P t.head.cls ∧ (∀ s, t.head.trace = some s → s.Owns P) ∧
    ∀ id ∈ t.causes.flatMap Condition.owners, P id := by
  simp only [Owns, owners, chain, List.flatMap_cons, List.mem_append, Condition.owners,
    List.mem_cons, Store.owns_iff]
  cases htrace : t.head.trace with
  | none =>
    simp only [Option.map_none, Option.getD_none, List.not_mem_nil, or_false, or_imp, forall_and,
      forall_eq, reduceCtorEq, false_implies, implies_true, true_and]
  | some s =>
    simp only [Option.map_some, Option.getD_some, or_imp, forall_and, forall_eq, and_assoc,
      Option.some.injEq, forall_eq']

/-- `Throwable.setTrace` may give a throwable any trace that owns what it may own. -/
private theorem Owns.setTrace (ht : t.Owns P) {s : Store} (hs : s.Owns P) (depth : Nat) (m : Memory) :
    (t.setTrace s depth m).1.Owns P := by
  obtain ⟨hcls, -, hcauses⟩ := owns_iff.mp ht
  refine owns_iff.mpr ⟨hcls, fun s' hs' => ?_, hcauses⟩
  cases hs'
  exact hs

/-- After `Throwable.clearTrace` a throwable owns no more than before. -/
theorem Owns.clearTrace (ht : t.Owns P) (m : Memory) : (t.clearTrace m).1.Owns P := by
  obtain ⟨hcls, -, hcauses⟩ := owns_iff.mp ht
  refine owns_iff.mpr ⟨hcls, fun s hs => ?_, hcauses⟩
  cases hs

/-- `Throwable.Owns` of a throwable without a trace and without causes is about its class. -/
theorem owns_of_untraced {cls : ClassId} (hcls : P cls) (message : Option String)
    (preallocated : Bool) : Owns P
      ⟨{ cls, message, trace := none, depth := 0, preallocated }, []⟩ := by
  intro id hid
  rw [show id = cls from List.mem_singleton.mp hid]
  exact hcls

/-- `Throwable.withCause` adds what the cause owns. -/
theorem Owns.withCause (ht : t.Owns P) {inner : Throwable} (hinner : inner.Owns P) :
    (t.withCause inner).Owns P := by
  obtain ⟨hcls, htrace, -⟩ := owns_iff.mp ht
  exact owns_iff.mpr ⟨hcls, htrace, hinner⟩

/-- `Throwable.Owns` reaches the trace of a throwable. -/
theorem Owns.trace (ht : t.Owns P) {s : Store} (hs : t.head.trace = some s) : s.Owns P :=
  (owns_iff.mp ht).2.1 s hs

end Throwable

namespace Universe

variable {P : ClassId → Prop} {u : Universe} {t : Throwable} {others : List ClassId}
  {thread : ManagedThread}

/-! ## Single calls -/

/-- `Universe.capture` stores a trace of classes that can be found. -/
private theorem owns_capture (hu : u.program.All P) {alive : ClassId → Bool} {cls : ClassId}
    {method : Option Method} {s : Store} {depth : Nat} {m : Memory}
    (h : u.capture alive cls thread method = (.ok (some (s, depth)), m)) : s.Owns P := by
  rw [capture_eq] at h
  split at h
  · cases h
  · rename_i b m₁ hstart
    have hstarted : b.store.Owns P := Builder.owns_start hstart
    split at h
    · cases h
    · rename_i fill hfill
      -- A walk is recorded, or the one method that is about to run
      have hfilled : (fill b m₁).2.1.store.Owns P := by
        unfold filling at hfill
        split at hfill
        · cases hfill
          exact owns_recordAll hu _ hstarted
        · obtain ⟨⟨method, holder⟩, hfound, rfl⟩ := Option.map_eq_some_iff.mp hfill
          obtain ⟨method', -, hmethod⟩ := Option.bind_eq_some_iff.mp hfound
          obtain ⟨holder', hholder, heq⟩ := Option.map_eq_some_iff.mp hmethod
          cases heq
          obtain ⟨r, b', m', hpush⟩ : ∃ r b' m', b.push m₁ holder method 0 = (r, b', m') :=
            ⟨_, _, _, rfl⟩
          show (b.push m₁ holder method 0).2.1.store.Owns P
          rw [hpush]
          exact Builder.owns_push hstarted (hu.holder hholder) hpush
      split at h
      · cases h
      · rename_i heq
        rw [heq] at hfilled
        cases h
        exact Builder.owns_finish hfilled _

/-- `Universe.fillInStackTrace` keeps `Throwable.Owns`. -/
theorem owns_fillInStackTrace (hu : u.program.All P) (ht : t.Owns P) (method : Option Method) :
    (u.fillInStackTrace others t thread method).2.1.Owns P := by
  have hcleared := ht.clearTrace u.memory
  unfold fillInStackTrace
  split
  · exact ht
  · simp only
    split
    · exact hcleared
    · exact hcleared
    · rename_i hcapture
      exact hcleared.setTrace
        (owns_capture (u := { u with memory := (t.clearTrace u.memory).2 }) hu hcapture) _ u.memory

/-- `Universe.refillStackTrace` keeps `Throwable.Owns`. -/
theorem owns_refillStackTrace (hu : u.program.All P) (ht : t.Owns P) :
    (u.refillStackTrace others t thread).2.1.Owns P := by
  have hcleared := ht.clearTrace u.memory
  unfold refillStackTrace
  split
  · exact ht
  · cases htrace : t.head.trace with
    | none =>
      simp only [Throwable.takeTrace, htrace]
      exact hcleared
    | some s =>
      have hstore : s.Owns P := ht.trace htrace
      have hreopened : (Builder.reopen s u.memory).1.store.Owns P := hstore
      simp only [Throwable.takeTrace, htrace]
      exact hcleared.setTrace (Builder.owns_finish (owns_refillAll hu _ hreopened) _) _ u.memory

/-- `Universe.allocateTrace` keeps `Throwable.Owns`. -/
theorem owns_allocateTrace (ht : t.Owns P) : (u.allocateTrace t).2.1.Owns P := by
  unfold allocateTrace
  split
  · exact ht
  · split
    · exact ht
    · rename_i b m hstart
      exact ht.setTrace (Builder.owns_finish (Builder.owns_start hstart) m) _ u.memory

/-- `Throwable.prepared` owns its class. -/
theorem owns_prepared {cls : ClassId} (hcls : P cls) : (Throwable.prepared cls).Owns P :=
  Throwable.owns_of_untraced hcls none true

/-! ## What a call leaves alone -/

/-- `Universe.fillInStackTrace` changes nothing of the universe but the memory. -/
theorem world_fillInStackTrace (u : Universe) (others : List ClassId) (t : Throwable)
    (thread : ManagedThread) (method : Option Method) :
    ∃ memory, (u.fillInStackTrace others t thread method).2.2 = { u with memory } := by
  unfold fillInStackTrace
  split
  · exact ⟨_, rfl⟩
  · simp only
    split
    · exact ⟨_, rfl⟩
    · exact ⟨_, rfl⟩
    · exact ⟨_, rfl⟩

/-- `Universe.refillStackTrace` changes nothing of the universe but the memory. -/
theorem world_refillStackTrace (u : Universe) (others : List ClassId) (t : Throwable)
    (thread : ManagedThread) :
    ∃ memory, (u.refillStackTrace others t thread).2.2 = { u with memory } := by
  unfold refillStackTrace
  split
  · exact ⟨_, rfl⟩
  · split
    · exact ⟨_, rfl⟩
    · exact ⟨_, rfl⟩

/-- `Universe.allocateTrace` changes nothing of the universe but the memory. -/
theorem world_allocateTrace (u : Universe) (t : Throwable) :
    ∃ memory, (u.allocateTrace t).2.2 = { u with memory } := by
  unfold allocateTrace
  split
  · exact ⟨_, rfl⟩
  · split
    · exact ⟨_, rfl⟩
    · exact ⟨_, rfl⟩

/-- `Universe.outOfMemoryError` changes nothing but the memory and the pool, which may lose the error
    that is handed out. -/
theorem world_outOfMemoryError (u : Universe) (others : List ClassId) (thread : ManagedThread)
    (message : Option String) :
    ∃ memory pool, (u.outOfMemoryError others thread message).2 = { u with memory, pool } ∧
      ∀ t ∈ pool, t ∈ u.pool := by
  unfold outOfMemoryError
  simp only
  split
  · exact ⟨_, _, rfl, fun t ht => ht⟩
  · split
    · exact ⟨_, _, rfl, fun t ht => ht⟩
    · rename_i t pool hpool
      obtain ⟨memory, hworld⟩ := world_refillStackTrace { u with pool } others
        (t.modifyHead ({ · with message })) thread
      refine ⟨memory, pool, hworld, fun t' ht' => ?_⟩
      rw [hpool]
      exact List.mem_cons_of_mem t ht'

/-- An error by `Universe.outOfMemoryError` owns what an error of the pool may own. -/
theorem owns_outOfMemoryError (hu : u.program.All P) (hcls : P u.outOfMemoryClass)
    (hpool : ∀ t ∈ u.pool, t.Owns P) (message : Option String) :
    (u.outOfMemoryError others thread message).1.Owns P := by
  unfold outOfMemoryError
  simp only
  split
  · exact owns_prepared hcls
  · split
    · exact owns_prepared hcls
    · rename_i t pool heq
      exact owns_refillStackTrace (u := { u with pool }) hu (hpool t (heq ▸ List.mem_cons_self))

end Universe

/-! ## The frames that are replayed -/

/-- `Cursor.next` reads frames that lie in the store of the cursor, and stays in the store. -/
private theorem Cursor.next_some {c c' : Cursor} {f : StoredFrame} (h : c.next = (some f, c')) :
    f.holder ∈ c.store.owners ∧ c'.store = c.store := by
  unfold next at h
  split at h
  · cases h
  · rename_i chunk hchunk
    split at h
    · cases h
    · rename_i g hframe
      obtain ⟨i, -, hi⟩ := Option.bind_eq_some_iff.mp hchunk
      -- The frame lies in a chunk of the arena, so its class is one that the store keeps alive
      have howner : g.holder ∈ c.store.owners := List.mem_flatMap.mpr
        ⟨chunk, Array.mem_toList_iff.mpr (Array.mem_of_getElem? hi),
          List.mem_map_of_mem (Array.mem_toList_iff.mpr (Array.mem_of_getElem? hframe))⟩
      split at h
      · cases h
        exact ⟨howner, rfl⟩
      · cases h
        exact ⟨howner, rfl⟩

/-- `Store.owners` has the class of each frame of the trace. -/
theorem Store.holder_mem_owners {s : Store} {f : StoredFrame} (h : f ∈ s.frames) :
    f.holder ∈ s.owners := by
  -- By induction on the fuel: what has been found and what is found yet lies in the store
  have hcollect : ∀ (fuel : Nat) (c : Cursor) (found : List StoredFrame), c.store = s →
      (∀ g ∈ found, g.holder ∈ s.owners) → ∀ g ∈ c.collect fuel found, g.holder ∈ s.owners := by
    intro fuel
    induction fuel with
    | zero =>
      intro c found _ hfound g hg
      exact hfound g (List.mem_reverse.mp hg)
    | succ fuel ih =>
      intro c found hc hfound g hg
      unfold Cursor.collect at hg
      split at hg
      · exact hfound g (List.mem_reverse.mp hg)
      · rename_i f c' hnext
        obtain ⟨howner, hstore⟩ := Cursor.next_some hnext
        refine ih c' _ (hstore.trans hc) (fun g hg => ?_) g hg
        rcases List.mem_cons.mp hg with rfl | hg
        · exact hc ▸ howner
        · exact hfound g hg
  exact hcollect _ (Cursor.start s) [] rfl nofun f h

end StackTrace
