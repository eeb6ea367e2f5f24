import Mathlib.Data.List.Permutation
import StackTrace.Proofs.Capture.Limits
import StackTrace.Proofs.Capture.Prepared
import StackTrace.Proofs.Capture.Session
import StackTrace.Proofs.Program.CodeSize

/-!
# The indices that are stored

A location holds an index of 16 bits, and a push turns down what does not fit.  An index into the code of
a method that the registry has let in always does, and so does the index of an activation that is still
entering a method.  So no recording of such activations is given up for an index, and each frame gives
back the index that it was recorded with.

## Key results

- `Method.Registered.fits`: an index into registered code can be stored
- `recordAll_told`, `refillAll_told`: what the loops write is taken from the walk, and when they turn an
  index down
- `Universe.told_fillInStackTrace`, `Universe.told_refillStackTrace`: the same for whole calls
- `Registrations.locations_of_run`: the indices of registered code
-/

namespace StackTrace

/-- An index was turned down, with the error `bciOutOfRange`. -/
def OutOfRange {α : Type} (r : Except (Failure TraceError) α) : Prop :=
  ∃ method bci, r = .error (.error (.bciOutOfRange method bci))

section OutOfRange

variable {α β : Type}

/-- An outcome that is no failure is not `OutOfRange`. -/
private theorem inRange_ok (a : α) : ¬OutOfRange (.ok a) := nofun

/-- A violation is not `OutOfRange`. -/
private theorem inRange_violation (v : Violation) : ¬OutOfRange (.error (.violation v) : Except _ α) := nofun

/-- A refusal of memory is not `OutOfRange`. -/
private theorem inRange_outOfMemory (e : OutOfMemory) :
    ¬OutOfRange (.error (.error (.outOfMemory e)) : Except _ α) := nofun

/-- Unreadable debug info is not `OutOfRange`. -/
private theorem inRange_debugInfo (e : DebugInfo.Error) :
    ¬OutOfRange (.error (.error (.debugInfo e)) : Except _ α) := nofun

/-- For `OutOfRange` it is the error that counts, whatever else could have been the result. -/
private theorem OutOfRange.of_error {e : Failure TraceError} (h : OutOfRange (.error e : Except _ α)) :
    OutOfRange (.error e : Except _ β) := by
  obtain ⟨method, bci, heq⟩ := h
  exact ⟨method, bci, congrArg Except.error (Except.error.inj heq)⟩

end OutOfRange

/-! ## Which indices can be stored -/

/-- The index `bci` lies in the code of the method, is its start, or is that of an activation which is
    still entering it. -/
def Method.Reaches (m : Method) (bci : Int) : Prop :=
  bci = syncEntryBci ∨ bci = 0 ∨ (0 ≤ bci ∧ bci < m.codeSize)

/-- `Location.fits` holds of every index into `Method.Registered` code. -/
theorem Method.Registered.fits {m : Method} (hm : m.Registered) {bci : Int} (hbci : m.Reaches bci) :
    Location.fits bci = true := by
  have hsize : m.codeSize ≤ 65536 := hm.codeInBounds.size_le
  simp only [Location.fits, Bool.or_eq_true, Bool.and_eq_true, beq_iff_eq, decide_eq_true_eq]
  rcases hbci with hentry | rfl | ⟨hle, hlt⟩
  · exact .inl hentry
  · exact .inr ⟨Int.le_refl 0, by decide⟩
  · refine .inr ⟨hle, ?_⟩
    show bci ≤ 65535
    omega

/-- An index that `Method.Reaches` comes back as it is, and that of an activation which is still
    entering as the start. -/
private theorem Method.Reaches.max_eq {m : Method} {bci : Int} (hbci : m.Reaches bci) :
    max bci 0 = if bci = syncEntryBci then 0 else bci := by
  by_cases hentry : bci = syncEntryBci
  · rw [if_pos hentry, hentry]
    rfl
  · rw [if_neg hentry]
    rcases hbci with h | rfl | ⟨hle, -⟩
    · exact absurd h hentry
    · rfl
    · omega

/-! ## Builders -/

namespace Builder

variable {b : Builder} {m : Memory}

/-- `Builder.expand` turns no index down. -/
private theorem inRange_expand (b : Builder) (m : Memory) : ¬OutOfRange (b.expand m).1 := by
  unfold expand
  split
  · exact inRange_ok _
  · split
    · rename_i e _ _
      cases e with
      | error e => exact inRange_outOfMemory e
      | violation v => exact inRange_violation v
    · exact inRange_ok _

/-- `Builder.push` turns an index down only if it cannot be stored. -/
private theorem inRange_push {bci : Int} (hfits : Location.fits bci = true) (m : Memory) (holder : Class)
    (method : Method) : ¬OutOfRange (b.push m holder method bci).1 := by
  obtain ⟨f, -, hpush⟩ := push_of_fits hfits holder method
  have hexpand := b.inRange_expand m
  rw [hpush]
  split
  · exact inRange_ok _
  · split
    · rename_i e _ _ heq
      rw [heq] at hexpand
      exact hexpand
    · exact inRange_ok _

/-- `Builder.markHiddenTop` turns no index down. -/
private theorem inRange_markHiddenTop (b : Builder) (m : Memory) : ¬OutOfRange (b.markHiddenTop m).1 := by
  unfold markHiddenTop
  split
  · exact inRange_ok _
  · split
    · rename_i e _ _
      cases e with
      | error e => exact inRange_outOfMemory e
      | violation v => exact inRange_violation v
    · exact inRange_ok _

/-- `Builder.start` turns no index down. -/
private theorem inRange_start (chunkSize : Nat) (m : Memory) : ¬OutOfRange (start chunkSize m).1 := by
  unfold start
  simp only
  split
  · exact inRange_ok _
  · rename_i e _ _
    cases e with
    | error e => exact inRange_outOfMemory e
    | violation v => exact inRange_violation v

end Builder

/-! ## What is written is taken from the walk -/

/-- The frame stores the activation, by `StoredFrame.Records` with some class. -/
def StoredFrame.TellsOf (f : StoredFrame) (a : Activation) : Prop :=
  ∃ holder : Class, f.Records holder a.method a.bci

/-- Each frame stores one of the activations, in their order (`StoredFrame.TellsOf`). -/
def Retell (fs : List StoredFrame) (as : List Activation) : Prop :=
  ∃ told, told.Sublist as ∧ List.Forall₂ StoredFrame.TellsOf fs told

/-- What recording activations has come to: the frames written are theirs (`Retell`), and no index was
    turned down if all of them can be stored. -/
structure Told (as : List Activation) (b : Builder)
    (r : Except (Failure TraceError) Unit × Builder × Memory) : Prop where
  sound : r.2.1.Sound
  written_eq : ∃ fs, r.2.1.written = b.written ++ fs ∧ Retell fs as
  inRange : (∀ a ∈ as, Location.fits a.bci = true) → ¬OutOfRange r.1

namespace Told

variable {a : Activation} {as : List Activation} {b : Builder} {m : Memory}
  {r : Except (Failure TraceError) Unit × Builder × Memory}

/-- `Told` where nothing is written. -/
private theorem nothing (as : List Activation) (hb : b.Sound) {r : Except (Failure TraceError) Unit}
    (hr : ¬OutOfRange r) : Told as b (r, b, m) :=
  ⟨hb, ⟨[], (List.append_nil _).symm, [], List.nil_sublist as, .nil⟩, fun _ => hr⟩

/-- `Told` where an activation is left out. -/
private theorem skip (h : Told as b r) : Told (a :: as) b r := by
  obtain ⟨fs, hwritten, told, hsub, hfs⟩ := h.written_eq
  exact ⟨h.sound, ⟨fs, hwritten, told, hsub.cons a, hfs⟩,
    fun hfits => h.inRange fun a' ha' => hfits a' (List.mem_cons_of_mem a ha')⟩

/-- `Told` where `Builder.push` records an activation, and what comes next records the others. -/
private theorem push (hb : b.Sound) (holder : Class)
    {next : Builder → Memory → Except (Failure TraceError) Unit × Builder × Memory}
    (hnext : ∀ b₁ m₁, b₁.Sound → Told as b₁ (next b₁ m₁)) :
    Told (a :: as) b
      (match b.push m holder a.method a.bci with
      | (.error e, b, m) => (.error e, b, m)
      | (.ok (), b, m) => next b m) := by
  split
  · rename_i e b₁ m₁ hpush
    -- A push that fails has written nothing, and ends the recording
    obtain rfl := Builder.push_error hpush
    refine ⟨hb, ⟨[], (List.append_nil _).symm, [], List.nil_sublist _, .nil⟩, fun hfits => ?_⟩
    have hrange := Builder.inRange_push (b := b₁) (hfits a List.mem_cons_self) m holder a.method
    rw [hpush] at hrange
    exact hrange
  · rename_i b₁ m₁ hpush
    have hpushed := hb.push_ok hpush
    -- A push that succeeds has written the one frame, and the others come behind it
    obtain ⟨f, hf, hwritten₁⟩ := hpushed.written_eq
    have hrest := hnext b₁ m₁ hpushed.sound
    obtain ⟨fs, hwritten, told, hsub, hfs⟩ := hrest.written_eq
    refine ⟨hrest.sound, ⟨f :: fs, ?_, a :: told, hsub.cons_cons a, .cons ⟨holder, hf⟩ hfs⟩, ?_⟩
    · rw [hwritten, hwritten₁, List.append_assoc]
      rfl
    · exact fun hfits => hrest.inRange fun a' ha' => hfits a' (List.mem_cons_of_mem a ha')

/-- `Told` where `Builder.push` records an activation, and that is all. -/
private theorem pushed (hb : b.Sound) (holder : Class) (a : Activation) (m : Memory) :
    Told [a] b (b.push m holder a.method a.bci) := by
  have hpush : Told [a] b
      (match b.push m holder a.method a.bci with
      | (.error e, b, m) => (.error e, b, m)
      | (.ok (), b, m) => (.ok (), b, m)) := .push hb holder fun b₁ m₁ hb₁ => .nothing [] hb₁ (inRange_ok _)
  generalize b.push m holder a.method a.bci = r at hpush ⊢
  obtain ⟨_ | _, b', m'⟩ := r
  · exact hpush
  · exact hpush

/-- `Told` where `Builder.markHiddenTop` marks a hidden activation, and what comes next records the
    others. -/
private theorem mark (hb : b.Sound)
    {next : Builder → Memory → Except (Failure TraceError) Unit × Builder × Memory}
    (hnext : ∀ b₁ m₁, b₁.Sound → Told as b₁ (next b₁ m₁)) :
    Told (a :: as) b
      (match b.markHiddenTop m with
      | (.error e, b, m) => (.error e, b, m)
      | (.ok (), b, m) => next b m) := by
  split
  · rename_i e b₁ m₁ hmark
    have hrange := b.inRange_markHiddenTop m
    rw [hmark] at hrange
    rcases Builder.markHiddenTop_cases hmark with ⟨-, rfl⟩ | ⟨hok, -⟩ | ⟨hok, -⟩
    · exact nothing _ hb hrange
    · exact nomatch hok
    · exact nomatch hok
  · rename_i b₁ m₁ hmark
    have hmarked := hb.markHiddenTop_ok hmark
    obtain ⟨hsound, ⟨fs, hwritten, hfs⟩, hrange⟩ := hnext b₁ m₁ hmarked.sound
    exact skip ⟨hsound, ⟨fs, hwritten.trans (by rw [hmarked.written_eq]), hfs⟩, hrange⟩

end Told

section Loops

variable {error : Option DebugInfo.Error} {b : Builder} {m : Memory}

/-- What `recordAll` writes records activations of the walk, and no index is turned down that can be
    stored. -/
theorem recordAll_told {p : FilterPolicy} {maxDepth : Nat} {f : FrameFilter} (as : List Activation)
    (hb : b.Sound) : Told as b (recordAll p maxDepth error f b m as) := by
  -- Induction on what is left of the walk, with the filter and the builder as they then are
  induction as generalizing f b m with
  | nil =>
    unfold recordAll
    split
    · exact .nothing _ hb (inRange_ok _)
    · cases error with
      | none => exact .nothing _ hb (inRange_ok _)
      | some e => exact .nothing _ hb (inRange_debugInfo e)
  | cons a as ih =>
    cases hmax : atMaxDepth maxDepth b with
    | true =>
      rw [recordAll_of_atMaxDepth hmax]
      exact .nothing _ hb (inRange_ok _)
    | false =>
      -- An activation is passed over, pushed, marked as hidden or left out
      rcases recordAll_cons hmax a as with ⟨-, heq⟩ | ⟨c, d, f', -, -, hcase⟩
      · rw [heq]
        exact (ih hb).skip
      · rcases hcase with ⟨-, heq⟩ | ⟨-, -, heq⟩ | ⟨-, -, heq⟩
        · rw [heq]
          exact .push hb c fun b₁ m₁ hb₁ => ih hb₁
        · rw [heq]
          exact .mark hb fun b₁ m₁ hb₁ => ih hb₁
        · rw [heq]
          exact (ih hb).skip

/-- What `refillAll` writes records activations of the walk, and no index is turned down that can be
    stored. -/
theorem refillAll_told {p : Program} {outside : ClassSet} {limit : Nat} (as : List Activation)
    (hb : b.Sound) : Told as b (refillAll p outside limit error b m as) := by
  -- Induction on what is left of the walk
  induction as generalizing b m with
  | nil =>
    cases error with
    | none => exact .nothing _ hb (inRange_ok _)
    | some e => exact .nothing _ hb (inRange_debugInfo e)
  | cons a as ih =>
    unfold refillAll
    simp only
    split
    · exact (ih hb).skip
    · rename_i holder _
      refine .push hb holder fun b₁ m₁ hb₁ => ?_
      split
      · exact .nothing _ hb₁ (inRange_ok _)
      · exact ih hb₁

end Loops

/-! ## Calls -/

/-- What `Universe.capture` can record of a thread: the activations on it, or the start of the method
    that it is about to run. -/
def ManagedThread.recordable (thread : ManagedThread) (method : Option Method) : List Activation :=
  if thread.hasManagedFrame then (Walk.ofStack thread.stack).activations
  else (method.map fun method => ⟨method, 0, .interpreted⟩).toList

namespace Universe

variable {u : Universe} {t : Throwable} {thread : ManagedThread} {method : Option Method}

/-- What `Universe.filling` writes records what can be recorded of the thread. -/
private theorem told_filling {alive : ClassId → Bool} {cls : ClassId}
    {fill : Builder → Memory → Except (Failure TraceError) Unit × Builder × Memory}
    (hfill : u.filling alive cls thread method = some fill) {b : Builder} {m : Memory}
    (hb : b.Sound) : Told (thread.recordable method) b (fill b m) := by
  unfold filling at hfill
  unfold ManagedThread.recordable
  split at hfill
  -- Managed code is walked; without any, the method that is about to run is the one activation
  · rename_i hmanaged
    cases hfill
    rw [if_pos hmanaged]
    exact recordAll_told _ hb
  · rename_i hmanaged
    obtain ⟨⟨method', holder⟩, hfound, rfl⟩ := Option.map_eq_some_iff.mp hfill
    obtain ⟨started, hstarted, hholder⟩ := Option.bind_eq_some_iff.mp hfound
    obtain ⟨_, -, heq⟩ := Option.map_eq_some_iff.mp hholder
    cases heq
    rw [if_neg hmanaged, hstarted]
    exact .pushed hb holder ⟨_, 0, .interpreted⟩ m

/-- What `Universe.capture` stores records what can be recorded of the thread, and no index of that is
    turned down if all of them can be stored. -/
private theorem told_capture (u : Universe) (alive : ClassId → Bool) (cls : ClassId) (thread : ManagedThread)
    (method : Option Method) :
    ((∀ a ∈ thread.recordable method, Location.fits a.bci = true) →
      ¬OutOfRange (u.capture alive cls thread method).1) ∧
      ∀ s depth, (u.capture alive cls thread method).1 = .ok (some (s, depth)) →
        Retell s.frames (thread.recordable method) := by
  have hstarted := Builder.inRange_start u.config.backtrace.chunkSize u.memory
  -- A capture fails to begin, has nothing to record, or ends as recording does
  rw [capture_eq]
  split
  · rename_i e m hstart
    rw [hstart] at hstarted
    exact ⟨fun _ hrange => hstarted hrange.of_error, nofun⟩
  · rename_i b m hstart
    have hblank := (Builder.start_ok hstart).1
    split
    · exact ⟨fun _ => inRange_ok _, nofun⟩
    · rename_i fill hfill
      have htold := told_filling hfill (m := m) hblank.sound
      split
      · rename_i e b' m' heq
        rw [heq] at htold
        exact ⟨fun hfits hrange => htold.inRange hfits hrange.of_error, nofun⟩
      · rename_i b' m' heq
        rw [heq] at htold
        obtain ⟨fs, hwritten, hfs⟩ := htold.written_eq
        refine ⟨fun _ => inRange_ok _, fun s depth hs => ?_⟩
        cases hs
        -- The builder was empty at the beginning, so these are all frames of the trace
        rw [htold.sound.frames_finish, hwritten, hblank.written_eq]
        exact hfs

/-- `Universe.fillInStackTrace` records what `Universe.capture` does, if it is not passed over. -/
theorem told_fillInStackTrace (u : Universe) (others : List ClassId) (t : Throwable)
    (thread : ManagedThread) (method : Option Method) :
    ((∀ a ∈ thread.recordable method, Location.fits a.bci = true) →
      ¬OutOfRange (u.fillInStackTrace others t thread method).1) ∧
      (u.config.backtrace.enabled = true → t.head.isFillable = true →
        ∀ s, (u.fillInStackTrace others t thread method).2.1.head.trace = some s →
          Retell s.frames (thread.recordable method)) := by
  unfold fillInStackTrace
  split
  · rename_i hpassed
    refine ⟨fun _ => inRange_ok _, fun henabled hfillable => ?_⟩
    rw [henabled, hfillable] at hpassed
    exact nomatch hpassed
  · obtain ⟨hrange, htold⟩ := told_capture { u with memory := (t.clearTrace u.memory).2 }
      ({ u with memory := (t.clearTrace u.memory).2 }.owned
        ((t.clearTrace u.memory).1.owners ++ others)).contains
      (t.clearTrace u.memory).1.head.cls thread method
    simp only
    split
    · rename_i e memory hcapture
      rw [hcapture] at hrange
      exact ⟨fun hfits hout => hrange hfits hout.of_error, fun _ _ s hs => nomatch hs⟩
    · exact ⟨fun _ => inRange_ok _, fun _ _ s hs => nomatch hs⟩
    -- The new trace is the one that was captured
    · rename_i store depth memory hcapture
      refine ⟨fun _ => inRange_ok _, fun _ _ s hs => ?_⟩
      cases hs
      exact htold store depth (congrArg Prod.fst hcapture)

/-- What `Universe.refillStackTrace` fills a store with records activations of the walk, and no index is
    turned down if all of them can be stored. -/
theorem told_refillStackTrace (ht : t.head.Consistent) (u : Universe) (others : List ClassId)
    (thread : ManagedThread) :
    ((∀ a ∈ (Walk.ofStack thread.stack).activations, Location.fits a.bci = true) →
      ¬OutOfRange (u.refillStackTrace others t thread).1) ∧
      (u.config.backtrace.enabled = true →
        ∀ s, (u.refillStackTrace others t thread).2.1.head.trace = some s →
          Retell s.frames (Walk.ofStack thread.stack).activations) := by
  cases henabled : u.config.backtrace.enabled with
  | false =>
    simp only [refillStackTrace, henabled, Bool.not_false, if_true]
    exact ⟨fun _ => inRange_ok _, fun h => absurd h Bool.false_ne_true⟩
  | true =>
    cases htrace : t.head.trace with
    | none =>
      simp only [refillStackTrace, henabled, Bool.not_true, Bool.false_eq_true, if_false,
        Throwable.takeTrace, htrace]
      exact ⟨fun _ => inRange_ok _, fun _ s hs => absurd hs.symm (Option.some_ne_none s)⟩
    | some s =>
      have hblank := Builder.blank_reopen (ht.usable s htrace) u.memory
      obtain ⟨r, b, m, hrefill⟩ : ∃ r b m, refillAll u.program
          (u.owned (t.takeTrace.2.owners ++ others)) s.chunkSize (Walk.ofStack thread.stack).error
          (Builder.reopen s u.memory).1 (Builder.reopen s u.memory).2
          (Walk.ofStack thread.stack).activations = (r, b, m) := ⟨_, _, _, rfl⟩
      have htold : Told _ (Builder.reopen s u.memory).1 (r, b, m) :=
        hrefill ▸ refillAll_told (Walk.ofStack thread.stack).activations hblank.sound
      -- The builder was blank, so the finished store has the frames that were written and no other
      obtain ⟨hsound, ⟨fs, hwritten, hfs⟩, hrange⟩ := htold
      rw [refillStackTrace_of_trace henabled htrace hrefill]
      refine ⟨fun hfits hout => ?_, fun _ s' hs' => ?_⟩
      · cases r with
        | ok _ => exact inRange_ok _ hout
        | error e => exact hrange hfits hout.of_error
      · cases hs'
        rw [hsound.frames_finish, hwritten, hblank.written_eq]
        exact hfs

end Universe

/-! ## Registered code -/

/-- Each frame names the method of one of the activations, in their order, and gives back its index;
    that of one which is still entering its method comes back as the start, `max a.bci 0`. -/
def ReadBack (fs : List StoredFrame) (as : List Activation) : Prop :=
  ∃ told, told.Sublist as ∧ List.Forall₂ (fun f a => f.ordinal = a.method.ordinal ∧
    f.name = a.method.name ∧ f.location.bci = if a.bci = syncEntryBci then 0 else a.bci) fs told

/-- Frames that are `Retell` of activations give back their indices. -/
private theorem Retell.readBack {fs : List StoredFrame} {as : List Activation} (h : Retell fs as)
    (has : ∀ a ∈ as, a.method.Reaches a.bci) : ReadBack fs as := by
  obtain ⟨told, hsub, hfs⟩ := h
  refine ⟨told, hsub, ?_⟩
  replace has : ∀ a ∈ told, a.method.Reaches a.bci := fun a ha => has a (hsub.subset ha)
  clear hsub
  induction hfs with
  | nil => exact .nil
  | cons hf _ ih =>
    obtain ⟨hreaches, hrest⟩ := List.forall_mem_cons.mp has
    obtain ⟨holder, hrecords⟩ := hf
    refine .cons ⟨hrecords.ordinal_eq, hrecords.name_eq, ?_⟩ (ih hrest)
    rw [hrecords.bci_eq, hreaches.max_eq]

/-- What holds of the activations on a thread, and of the start of any method, holds of
    `ManagedThread.recordable`. -/
private theorem ManagedThread.forall_recordable {P : Method → Int → Prop} {thread : ManagedThread}
    (hthread : ∀ a ∈ (Walk.ofStack thread.stack).activations, P a.method a.bci)
    (hstart : ∀ m, P m 0) (method : Option Method) :
    ∀ a ∈ thread.recordable method, P a.method a.bci := by
  unfold recordable
  split
  · exact hthread
  · intro a ha
    obtain ⟨m, -, rfl⟩ := Option.map_eq_some_iff.mp (Option.mem_toList.mp ha)
    exact hstart m

namespace Registrations

/-- `Registrations.own` classes have code of at most 65536 bytes in every version, and none if it is
    native, whatever is asked of the registry, or done past it.  So on a thread whose activations are
    all of such methods, at indices that the method `Reaches`, no call turns an index down, whatever the
    runtime, and `ReadBack` holds of what is stored: each frame gives back the index that it was
    recorded with. -/
theorem locations_of_run (p : Program) (requests : List ClassRequest) (calls : List Call)
    {t : Throwable} (ht : t ∈ (Session.run calls).throwables) {thread : ManagedThread}
    (hthread : ∀ a ∈ (Walk.ofStack thread.stack).activations,
      a.method.Registered ∧ a.method.Reaches a.bci) :
    (∀ id ∈ (run p requests).own, ∃ c, (run p requests).program.get? id = some c ∧
      ∀ v ∈ c.versions, ∀ m ∈ v.methods,
        m.codeSize ≤ 65536 ∧ (m.flags.native = true → m.codeSize = 0)) ∧
    ∀ (u : Universe) (others : List ClassId),
      (∀ method, ¬OutOfRange (u.fillInStackTrace others t thread method).1 ∧
        (u.config.backtrace.enabled = true → t.head.isFillable = true →
          ∀ s, (u.fillInStackTrace others t thread method).2.1.head.trace = some s →
            ReadBack s.frames (thread.recordable method))) ∧
      ¬OutOfRange (u.refillStackTrace others t thread).1 ∧
      (u.config.backtrace.enabled = true →
        ∀ s, (u.refillStackTrace others t thread).2.1.head.trace = some s →
          ReadBack s.frames (Walk.ofStack thread.stack).activations) := by
  have hreaches : ∀ a ∈ (Walk.ofStack thread.stack).activations, a.method.Reaches a.bci :=
    fun a ha => (hthread a ha).2
  have hfits : ∀ a ∈ (Walk.ofStack thread.stack).activations, Location.fits a.bci = true :=
    fun a ha => (hthread a ha).1.fits (hthread a ha).2
  have hconsistent := (Session.sound_run calls).consistent ht
  refine ⟨fun id hid => ?_, fun u others => ⟨fun method => ?_, ?_⟩⟩
  · obtain ⟨c, hget, hc⟩ := inBounds_run p requests id hid
    exact ⟨c, hget, fun v hv m hm => ⟨(hc v hv m hm).size_le, (hc v hv m hm).native_eq⟩⟩
  -- A capture: of the walk, or of the start of a method
  · obtain ⟨hrange, htold⟩ := u.told_fillInStackTrace others t thread method
    refine ⟨hrange ?_, fun henabled hfillable s hs => (htold henabled hfillable s hs).readBack ?_⟩
    · exact ManagedThread.forall_recordable (P := fun _ bci => Location.fits bci = true) hfits
        (fun _ => rfl) method
    · exact ManagedThread.forall_recordable hreaches (fun _ => .inr (.inl rfl)) method
  -- A store that is filled in place: of the walk alone
  · obtain ⟨hrange, htold⟩ := Universe.told_refillStackTrace hconsistent u others thread
    exact ⟨hrange hfits, fun henabled s hs => (htold henabled s hs).readBack hreaches⟩

/-- The largest method that the registry lets in. -/
def widest : Method := ⟨⟨0⟩, 0, 0, 0, ⟨"run", 0⟩, ⟨"()V", 1⟩, {}, 65536, []⟩

/-- A class with the method `widest` is let in; a version of it with a larger method is not. -/
def letIn : List ClassRequest :=
  [.define { name := "acme/Widget", methods := [{ name := "run", codeSize := 65536 }] },
    .redefine "acme/Widget" [{ name := "run", codeSize := 65537 }] none]

/-- `Universe.single`, but recording all frames. -/
def recording : Universe :=
  { Universe.single with config := {}, names := ⟨⟨"fillInStackTrace", 2⟩, ⟨"<init>", 3⟩⟩ }

/-- A thread in the last byte of `widest`, called while it was still entering it. -/
def inWidest : ManagedThread := ⟨"main", [.interpreted widest 65535, .interpreted widest (-1), .entry]⟩

/-- `locations_of_run` for the widest code that can be registered: both indices can be stored, and come
    back as they are and as the start. -/
theorem locations_of_run_widest :
    widest.Registered ∧
    ¬OutOfRange (recording.fillInStackTrace [] (Throwable.new ⟨0⟩ none) inWidest none).1 ∧
    (recording.fillInStackTrace [] (Throwable.new ⟨0⟩ none) inWidest none).2.1.head.frames.map
      (·.location.bci) = [65535, 0] := by
  have hmethods : ((run .empty letIn).program.get? ⟨0⟩).map (·.current.methods.toList) =
      some [widest] := by
    cbv
  have hown : (⟨0⟩ : ClassId) ∈ (run .empty letIn).own := by
    decide +kernel
  obtain ⟨c, hget, hlist⟩ := Option.map_eq_some_iff.mp hmethods
  have hwidest : widest.Registered := by
    refine ⟨.empty, letIn, ⟨0⟩, c, hown, hget, c.current, List.mem_cons_self, ?_⟩
    exact Array.mem_toList_iff.mp (hlist ▸ List.mem_singleton_self widest)
  have ht : Throwable.new ⟨0⟩ none ∈ (Session.run [.raise ⟨0⟩ none]).throwables :=
    List.mem_singleton.mpr rfl
  have hthread : ∀ a ∈ (Walk.ofStack inWidest.stack).activations,
      a.method.Registered ∧ a.method.Reaches a.bci := by
    intro a ha
    rcases List.mem_pair.mp ha with rfl | rfl
    · exact ⟨hwidest, .inr (.inr (by decide))⟩
    · exact ⟨hwidest, .inl rfl⟩
  obtain ⟨-, hcalls⟩ := locations_of_run .empty letIn _ ht hthread
  exact ⟨hwidest, ((hcalls recording []).1 none).1, by decide +kernel⟩

end Registrations

end StackTrace
