import StackTrace.Proofs.Capture.Recording
import StackTrace.Proofs.Program.Alive

/-!
# Capturing a stack

On memory that never refuses, a capture for a throwable that the runtime did not prepare is settled
by the walk and the filter alone: they say how it ends and, if it ends well, what is stored.

## Key results

- `Universe.capture_of_neverRefuses`: what a capture gives back
- `Universe.fillInStackTrace_of_neverRefuses`: what a throwable is left with
-/

namespace StackTrace

/-- What a `Walk.visited` visits are its activations whose class can still be found. -/
private theorem FilterPolicy.seen_activations {p : FilterPolicy}
    (halive : ∀ id, p.alive id = true → (p.program.get? id).isSome = true) (w : Walk) :
    p.seen w.activations = w.visited p.alive := by
  refine List.filter_congr fun a _ => ?_
  rw [Program.holder]
  cases hid : p.alive a.method.holder with
  | true => exact halive _ hid
  | false => rfl

namespace Universe

/-- What `Universe.capture` of managed code gives back is settled by what the filter lets pass: the
    store of it, with as many frames as there are, or the reason why recording has ended. -/
theorem capture_of_neverRefuses {u : Universe} (hpos : 0 < u.config.backtrace.chunkSize)
    (hmemory : u.memory.NeverRefuses) {alive : ClassId → Bool}
    (halive : ∀ id, alive id = true → (u.program.get? id).isSome = true) (cls : ClassId)
    {thread : ManagedThread} (hmanaged : thread.hasManagedFrame = true) (method : Option Method)
    {p : FilterPolicy} (hp : p = ⟨u.program, u.names, alive, cls, u.config.backtrace.showHiddenFrames⟩) :
    let walk := Walk.ofStack thread.stack
    let recorded := FrameFilter.start.recorded p (walk.visited alive)
    let part := upTo u.config.backtrace.maxDepth 0 recorded
    let outcome := recordOutcome p u.config.backtrace.maxDepth 0 walk.error recorded
    (∃ e m, u.capture alive cls thread method = (.error e, m) ∧ outcome = .error e) ∨
    ∃ s m, u.capture alive cls thread method = (.ok (some (s, part.length)), m) ∧
      outcome = .ok () ∧ List.Forall₂ p.Describes part s.frames ∧
      s.hasHiddenTop = FrameFilter.start.hiddenFirst p (walk.visited alive) := by
  intro walk recorded part outcome
  -- A builder on a new store has written nothing, and memory goes on never to refuse
  obtain ⟨b, hstart⟩ := Builder.start_of_neverRefuses hpos hmemory
  obtain ⟨hblank, -, -⟩ := Builder.start_ok hstart
  have hscope := hmemory.openScope.charged 1 (Chunk.heapBytes u.config.backtrace.chunkSize)
  generalize Memory.charged _ 1 (Chunk.heapBytes u.config.backtrace.chunkSize) = m
    at hstart hscope
  have hseen : p.seen walk.activations = walk.visited alive := by
    subst hp
    exact FilterPolicy.seen_activations halive walk
  have hcap : u.config.backtrace.maxDepth = 0 ∨ b.depth ≤ u.config.backtrace.maxDepth := by
    rw [hblank.depth_eq]
    exact .inr (Nat.zero_le _)
  obtain ⟨r, b', m', hrun⟩ : ∃ r b' m', recordAll p u.config.backtrace.maxDepth walk.error
      FrameFilter.start b m walk.activations = (r, b', m') := ⟨_, _, _, rfl⟩
  -- How recording ends is known from what the filter lets pass
  have hresult : (recordAll p u.config.backtrace.maxDepth walk.error FrameFilter.start b m
      walk.activations).1 = _ :=
    recordAll_fst hscope walk.activations hblank.sound (hblank.spent hscope) hcap
  rw [hrun, hseen, hblank.depth_eq] at hresult
  subst hp
  cases r with
  | error e =>
    -- The builder is given up
    refine .inl ⟨e, b'.abandon m', ?_, hresult.symm⟩
    simp only [capture, hstart, hmanaged, if_true]
    rw [hrun]
  | ok =>
    -- What has been written is what the finished store replays
    obtain ⟨hsound, ⟨fs, hwritten, hfs⟩, hhidden⟩ :=
      recordAll_ok walk.activations hblank.sound hcap hrun
    rw [hseen, hblank.depth_eq] at hfs hhidden
    rw [hblank.written_eq, List.nil_append] at hwritten
    have hdepth : b'.depth = part.length := by
      rw [← hsound.length_written, hwritten, ← hfs.length_eq]
    refine .inr ⟨(b'.finish m').1, (b'.finish m').2, ?_, hresult.symm, ?_, ?_⟩
    · simp only [capture, hstart, hmanaged, if_true]
      rw [hrun, ← hdepth]
    · rw [hsound.frames_finish, hwritten]
      exact hfs
    · rw [Store.hasHiddenTop, Builder.hiddenTop_finish, ← Store.hasHiddenTop, hhidden,
        Store.hasHiddenTop, hblank.hiddenTop_eq]
      rfl

/-- Settings that pass `RuntimeConfig.validate` have chunks with a slot at least. -/
theorem chunkSize_pos_of_validate {c : RuntimeConfig} (hvalid : c.validate = .ok ()) :
    0 < c.backtrace.chunkSize := by
  rw [RuntimeConfig.validate, checkChunkSize] at hvalid
  split at hvalid
  · exact nomatch hvalid
  · omega

/-- A `Universe.fillInStackTrace` that is not passed over drops the former trace before it stores a new
    one. -/
theorem fillInStackTrace_of_fillable {u : Universe} (henabled : u.config.backtrace.enabled = true)
    (others : List ClassId) {t : Throwable} (hnew : t.head.preallocated = false)
    (thread : ManagedThread) (method : Option Method) :
    u.fillInStackTrace others t thread method =
      let cleared := (t.clearTrace u.memory).1
      match capture { u with memory := (t.clearTrace u.memory).2 }
          (u.owned (cleared.owners ++ others)).contains t.head.cls thread method with
      | (.error e, memory) => (.error e, cleared, { u with memory })
      | (.ok none, memory) => (.ok 0, cleared, { u with memory })
      | (.ok (some (s, depth)), memory) =>
        (.ok depth, (cleared.setTrace s depth memory).1,
          { u with memory := (cleared.setTrace s depth memory).2 }) := by
  simp only [fillInStackTrace, henabled, Condition.isFillable, hnew, Bool.not_true, Bool.not_false,
    Bool.or_self, Bool.false_eq_true, if_false]
  rfl

/-- `upTo` from depth 0 takes the first activations, or all of them. -/
private theorem upTo_zero (maxDepth : Nat) (as : List Activation) :
    upTo maxDepth 0 as =
      as.take (if maxDepth = 0 then as.length else min maxDepth as.length) := by
  unfold upTo
  split
  · exact List.take_length.symm
  · rw [Nat.sub_zero, List.take_eq_take_min]

/-- The three ends that `recordOutcome` comes to: an index that cannot be stored, the error that ended
    the walk, or none of both. -/
theorem recordOutcome_cases {p : FilterPolicy} {maxDepth : Nat} {error : Option DebugInfo.Error}
    {recorded : List Activation} {n : Nat} {unfit : Option Activation}
    (hn : n = if maxDepth = 0 then recorded.length else min maxDepth recorded.length)
    (hunfit : unfit = (recorded.take n).find? fun a => !Location.fits a.bci)
    {r : Except (Failure TraceError) Unit} (h : recordOutcome p maxDepth 0 error recorded = r) :
    (∀ a, unfit = some a → r =
      .error (.error (.bciOutOfRange (p.program.externalName p.alive a.method) a.bci))) ∧
    (∀ e, unfit = none → (maxDepth = 0 ∨ recorded.length < maxDepth) → error = some e →
      r = .error (.error (.debugInfo e))) ∧
    (unfit = none → (maxDepth ≠ 0 ∧ maxDepth ≤ recorded.length) ∨ error = none → r = .ok ()) := by
  -- From depth 0 on, `n` activations are recorded
  unfold recordOutcome at h
  rw [upTo_zero, ← hn, ← hunfit, Nat.zero_add] at h
  refine ⟨fun a ha => ?_, fun e hnone hopen he => ?_, fun hnone hend => ?_⟩
  · rw [ha] at h
    exact h.symm
  · rw [hnone, he] at h
    simp only at h
    rw [if_neg (by omega)] at h
    exact h.symm
  · rw [hnone] at h
    simp only at h
    split at h
    · exact h.symm
    · rename_i hopen
      rw [hend.resolve_left hopen] at h
      exact h.symm

/-- `Universe.fillInStackTrace` for a throwable that the runtime did not prepare, of a thread that runs
    managed code, on memory that never refuses.  Of the frames that the walk visits once the former
    trace is dropped, those count that the filter lets pass, up to the greatest depth.  If one of them
    cannot be stored, the first such one is reported; if the walk is read to its end, the error that
    ended it is.  Otherwise they are stored, each with what was known of it, and counted.  After a
    failure the throwable has no trace. -/
theorem fillInStackTrace_of_neverRefuses {u : Universe} (hvalid : u.config.validate = .ok ())
    (henabled : u.config.backtrace.enabled = true) (hmemory : u.memory.NeverRefuses)
    (others : List ClassId) {t : Throwable} (hnew : t.head.preallocated = false)
    {thread : ManagedThread} (hmanaged : thread.hasManagedFrame = true) (method : Option Method) :
    let maxDepth := u.config.backtrace.maxDepth
    let alive := (u.owned ((t.clearTrace u.memory).1.owners ++ others)).contains
    let policy : FilterPolicy :=
      ⟨u.program, u.names, alive, t.head.cls, u.config.backtrace.showHiddenFrames⟩
    let walk := Walk.ofStack thread.stack
    let visited := walk.visited alive
    let decisions := FrameFilter.start.decideAll policy (visited.map (·.method))
    let recorded := ((visited.zip decisions).filter fun (_, d) => d = .record).map Prod.fst
    let n := if maxDepth = 0 then recorded.length else min maxDepth recorded.length
    let unfit := (recorded.take n).find? fun a => !Location.fits a.bci
    let (result, t', _) := u.fillInStackTrace others t thread method
    (∀ a, unfit = some a → result =
      .error (.error (.bciOutOfRange (u.program.externalName alive a.method) a.bci))) ∧
    (∀ e, unfit = none → (maxDepth = 0 ∨ recorded.length < maxDepth) → walk.error = some e →
      result = .error (.error (.debugInfo e))) ∧
    (unfit = none → (maxDepth ≠ 0 ∧ maxDepth ≤ recorded.length) ∨ walk.error = none →
      result = .ok n ∧ ∃ s, t' = t.modifyHead ({ · with trace := some s, depth := n }) ∧
        List.Forall₂ (fun a frame => ∃ holder, u.program.holder alive a.method = some holder ∧
          frame.Records holder a.method a.bci) (recorded.take n) s.frames ∧
        (s.hasHiddenTop = true ↔ .skipHidden ∈ decisions.takeWhile (· ≠ .record))) ∧
    (∀ e, result = .error e → t' = t.modifyHead ({ · with trace := none, depth := 0 })) := by
  intro maxDepth alive policy walk visited decisions recorded n unfit
  have halive : ∀ id, alive id = true → (u.program.get? id).isSome = true :=
    fun id hid => Program.isSome_get?_of_owned hid
  have hcapture := capture_of_neverRefuses (u := { u with memory := (t.clearTrace u.memory).2 })
    (chunkSize_pos_of_validate hvalid) (hmemory.releaseAll t.head.reservations) halive t.head.cls
    hmanaged method (p := policy) rfl
  have hpart : upTo maxDepth 0 recorded = recorded.take n := upTo_zero maxDepth recorded
  have hlength : (recorded.take n).length = n := by
    rw [List.length_take]
    simp only [n]
    split
    · exact Nat.min_self _
    · omega
  rw [fillInStackTrace_of_fillable henabled others hnew thread method]
  rcases hcapture with ⟨e, m, hcapture, houtcome⟩ | ⟨s, m, hcapture, houtcome, hframes, hhidden⟩
  · -- A failure: the throwable stays cleared
    obtain ⟨hunfit, hbroken, hgood⟩ := recordOutcome_cases rfl rfl houtcome
    simp only
    rw [hcapture]
    refine ⟨fun a ha => ?_, fun e' hnone hopen he => ?_, fun hnone hend => ?_, fun _ _ => rfl⟩
    · exact congrArg Except.error (Except.error.inj (hunfit a ha))
    · exact congrArg Except.error (Except.error.inj (hbroken e' hnone hopen he))
    · exact nomatch hgood hnone hend
  · -- A store: the throwable gets it, with as many frames as were recorded
    obtain ⟨hunfit, hbroken, -⟩ := recordOutcome_cases rfl rfl houtcome
    have hcount : (upTo maxDepth 0 recorded).length = n := by rw [hpart, hlength]
    simp only
    rw [hcapture]
    refine ⟨fun a ha => ?_, fun e hnone hopen he => ?_, fun _ _ => ?_, fun e he => nomatch he⟩
    · exact nomatch hunfit a ha
    · exact nomatch hbroken e hnone hopen he
    · refine ⟨congrArg Except.ok hcount, s, ?_, hpart ▸ hframes, ?_⟩
      · rw [← hcount]
        rfl
      · rw [hhidden, FrameFilter.hiddenFirst, List.contains_iff_mem]
        rfl

/-- A runtime with one class, which records at most one frame. -/
def single : Universe where
  config := { backtrace := { maxDepth := 1, chunkSize := 1 } }
  memory := Memory.ofLimit none
  names := ⟨⟨"fillInStackTrace", 0⟩, ⟨"<init>", 1⟩⟩
  program :=
    { symbols := SymbolTable.empty
      classes := #[⟨⟨0⟩, ⟨"acme/Fault", 2⟩, none, none, none, ⟨0, none, #[]⟩, [], 0⟩]
      loaded := Table.empty }
  throwableClass := ⟨0⟩
  outOfMemoryClass := ⟨0⟩
  pool := []

/-- A thread that raises an error of the class of `single` in a hidden method.  The index of its
    outermost frame cannot be stored. -/
def raising : ManagedThread where
  name := "main"
  stack := [.interpreted ⟨⟨0⟩, 0, 0, 0, ⟨"<init>", 1⟩, ⟨"()V", 3⟩, {}, 1, []⟩ 0,
    .interpreted ⟨⟨0⟩, 0, 1, 1, ⟨"check", 4⟩, ⟨"()V", 3⟩, { hidden := true }, 1, []⟩ 0,
    .interpreted ⟨⟨0⟩, 0, 2, 2, ⟨"run", 5⟩, ⟨"()V", 3⟩, {}, 9, []⟩ 7,
    .interpreted ⟨⟨0⟩, 0, 3, 3, ⟨"main", 6⟩, ⟨"()V", 3⟩, {}, 1, []⟩ 65536, .entry]

/-- `fillInStackTrace_of_neverRefuses` where the constructor and the hidden method are left out, and
    behind the greatest depth nothing is looked at. -/
theorem fillInStackTrace_single_raising :
    (single.fillInStackTrace [] (Throwable.new ⟨0⟩ none) raising none).1 = .ok 1 ∧
      ∃ s, (single.fillInStackTrace [] (Throwable.new ⟨0⟩ none) raising none).2.1.head.trace = some s ∧
        s.hasHiddenTop = true := by
  have hmemory : single.memory.NeverRefuses := ⟨⟨nofun, by decide⟩, rfl⟩
  have h := fillInStackTrace_of_neverRefuses (u := single) rfl rfl hmemory []
    (t := Throwable.new ⟨0⟩ none) rfl (show raising.hasManagedFrame = true from rfl) none
  obtain ⟨-, -, hok, -⟩ := h
  obtain ⟨hresult, s, ht, -, hhidden⟩ := hok (by decide +kernel) (.inr (by decide +kernel))
  refine ⟨hresult.trans (by decide +kernel), s, ?_, hhidden.mpr (by decide +kernel)⟩
  exact congrArg (·.head.trace) ht

end Universe

end StackTrace
