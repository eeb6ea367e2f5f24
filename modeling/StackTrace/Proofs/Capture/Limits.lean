import StackTrace.Proofs.Capture.Fill
import StackTrace.Proofs.Store.Charges

/-!
# Capturing under a limit

A capture that is seen to succeed on some heap is all or nothing on a heap with a limit.  If the limit
leaves room for the whole trace, the very same trace is stored and exactly its bytes are charged.
Otherwise the capture is refused, wherever the object that does not fit is asked for, and everything
charged on the way is given back.

## Key results

- `recordAll_led`: recording under a limit, by induction on the walk
- `Universe.capture_of_limit`: a whole capture under a limit
- `Universe.fillInStackTrace_of_limit`: what the throwable and the heap are left with
-/

namespace StackTrace

/-! ### Recording -/

section Recording

variable {p : FilterPolicy} {maxDepth : Nat} {error : Option DebugInfo.Error} {f : FrameFilter}
  {b b' : Builder} {m m' : Memory} {r : Except (Failure TraceError) Unit}

/-- Where `recordAll` is seen to end well, or in any way on a heap that never refuses, it does the same
    where there is room, and is refused under a lower limit. -/
theorem recordAll_led (as : List Activation) (hb : b.Fresh) (hdepth : m.safepoints.depth = 1)
    (hseen : r = .ok () ∨ m.heap.NeverRefuses)
    (h : recordAll p maxDepth error f b m as = (r, b', m')) :
    Builder.Led (recordAll p maxDepth error f b · as) b b' r m' := by
  -- Induction on what is left of the walk, with the filter and the builder as they then are
  induction as generalizing f b m with
  | nil =>
    -- At the end of the walk nothing is allocated
    have hop : ∀ m, recordAll p maxDepth error f b m [] =
        ((recordAll p maxDepth error f b m' []).1, b, m) := by
      intro m
      simp only [recordAll]
      split
      · rfl
      · cases error with
        | none => rfl
        | some e => rfl
    rw [hop m] at h
    cases h
    exact ⟨hb, .refl _, hdepth, .nothing hop⟩
  | cons a as ih =>
    -- At the greatest depth nothing is looked at any more
    cases hmax : atMaxDepth maxDepth b with
    | true =>
      have hop : ∀ m, recordAll p maxDepth error f b m (a :: as) = (.ok (), b, m) := fun _ =>
        recordAll_of_atMaxDepth hmax (a :: as)
      rw [hop] at h
      cases h
      exact ⟨hb, .refl _, hdepth, .nothing hop⟩
    | false =>
      -- An activation is passed over, pushed, marked as hidden or left out
      rcases recordAll_cons hmax a as with ⟨-, heq⟩ | ⟨c, d, f', -, -, hcase⟩
      · rw [heq] at h
        simp only [heq]
        exact ih hb hdepth hseen h
      · rcases hcase with ⟨-, heq⟩ | ⟨-, -, heq⟩ | ⟨-, -, heq⟩
        · rw [heq] at h
          simp only [heq]
          exact (hb.push c a.method a.bci).led_andThen hb hdepth hseen ih h
        · rw [heq] at h
          simp only [heq]
          exact hb.markHiddenTop.led_andThen hb hdepth hseen ih h
        · rw [heq] at h
          simp only [heq]
          exact ih hb hdepth hseen h

end Recording

/-! ### Capturing -/

namespace Universe

variable {u : Universe} {alive : ClassId → Bool} {cls : ClassId} {thread : ManagedThread}
  {method : Option Method}

/-- What `Universe.capture` does with the builder it has begun, unless there is nothing to record. -/
def filling (u : Universe) (alive : ClassId → Bool) (cls : ClassId) (thread : ManagedThread)
    (method : Option Method) :
    Option (Builder → Memory → Except (Failure TraceError) Unit × Builder × Memory) :=
  if thread.hasManagedFrame then
    let policy : FilterPolicy :=
      { program := u.program, names := u.names, alive, throwableClass := cls,
        showHidden := u.config.backtrace.showHiddenFrames }
    let walk := Walk.ofStack thread.stack
    some fun b m => recordAll policy u.config.backtrace.maxDepth walk.error FrameFilter.start b m
      walk.activations
  else
    (method.bind fun method => (u.program.holder alive method).map (method, ·)).map
      fun (method, holder) b m => b.push m holder method 0

/-- `Universe.capture` begins a builder, fills it, and finishes it or gives it up. -/
theorem capture_eq (u : Universe) (alive : ClassId → Bool) (cls : ClassId) (thread : ManagedThread)
    (method : Option Method) :
    u.capture alive cls thread method =
      match Builder.start u.config.backtrace.chunkSize u.memory with
      | (.error e, m) => (.error e, m)
      | (.ok b, m) =>
        match u.filling alive cls thread method with
        | none => (.ok none, b.abandon m)
        | some fill =>
          match fill b m with
          | (.error e, b, m) => (.error e, b.abandon m)
          | (.ok (), b, m) => (.ok (some ((b.finish m).1, b.depth)), (b.finish m).2) := by
  unfold capture filling
  cases thread.hasManagedFrame with
  | true => rfl
  | false =>
    cases (method.bind fun method => (u.program.holder alive method).map (method, ·)) with
    | none => rfl
    | some found => rfl

/-- `recordAll_led` for what `Universe.filling` does with a builder. -/
theorem filling_led {fill : Builder → Memory → Except (Failure TraceError) Unit × Builder × Memory}
    (hfill : u.filling alive cls thread method = some fill) {b b' : Builder} {m m' : Memory}
    {r : Except (Failure TraceError) Unit} (hb : b.Fresh) (hdepth : m.safepoints.depth = 1)
    (hseen : r = .ok () ∨ m.heap.NeverRefuses) (h : fill b m = (r, b', m')) :
    Builder.Led (fill b) b b' r m' := by
  unfold filling at hfill
  split at hfill
  · cases hfill
    exact recordAll_led _ hb hdepth hseen h
  · obtain ⟨⟨method, holder⟩, -, rfl⟩ := Option.map_eq_some_iff.mp hfill
    exact (hb.push holder method 0).led hb hdepth hseen h

/-- A `Universe.capture` that stores a trace has filled a new builder and finished it, and would fill it
    the same under a limit. -/
private theorem budgeted_of_capture {s : Store} {depth : Nat} {m : Memory}
    (h : u.capture alive cls thread method = (.ok (some (s, depth)), m)) :
    let chunkSize := u.config.backtrace.chunkSize
    u.memory.safepoints.allowed = true ∧ 0 < chunkSize ∧
      ∃ fill b, u.filling alive cls thread method = some fill ∧ b.Fresh ∧ b.store = s ∧
        b.depth = depth ∧ s.chunkSize = chunkSize ∧
        Builder.Budgeted (fill (Builder.initial chunkSize)) (Builder.initial chunkSize) b (.ok ()) := by
  intro chunkSize
  rw [capture_eq] at h
  split at h
  · cases h
  · rename_i b₀ m₁ hstart
    have hallowed := Builder.allowed_of_start hstart
    have hpos : 0 < u.config.backtrace.chunkSize := by
      rcases Builder.start_cases hstart with ⟨e, he⟩ | ⟨hpos, -⟩
      · cases he
      · exact hpos
    -- The capture has come to the end, so each step before it has succeeded
    rw [Builder.start_eq hpos hallowed] at hstart
    split at hstart
    · cases hstart
      split at h
      · cases h
      · rename_i fill hfill
        split at h
        · cases h
        · rename_i b m₂ hrun
          have hdepth : ((Builder.inScope u.memory).charged 1
              (Chunk.heapBytes u.config.backtrace.chunkSize)).safepoints.depth = 1 :=
            Builder.depth_inScope hallowed
          obtain ⟨hfresh, hsame, -, hbudget⟩ :=
            filling_led hfill (Builder.fresh_initial hpos) hdepth (.inl rfl) hrun
          rw [Builder.finish_of_new hfresh.reuse_eq] at h
          cases h
          exact ⟨hallowed, hpos, fill, b, hfill, hfresh, rfl, rfl, hsame.chunkSize_eq, hbudget⟩
    · cases hstart

section Limit

variable {limit : Nat} {b : Builder} {r : Except (Failure TraceError) Unit}
  {fill : Builder → Memory → Except (Failure TraceError) Unit × Builder × Memory}

/-- `Universe.capture` where all is granted that the store of the builder holds in the end: the store is
    finished if filling it has ended well, and given up if not. -/
theorem capture_of_granted (hgrants : (Builder.inScope u.memory).Grants limit)
    (hallowed : u.memory.safepoints.allowed = true) (hpos : 0 < u.config.backtrace.chunkSize)
    (hfill : u.filling alive cls thread method = some fill)
    (hbudget : Builder.Budgeted (fill (Builder.initial u.config.backtrace.chunkSize))
      (Builder.initial u.config.backtrace.chunkSize) b r)
    (hfits : u.memory.heap.used + b.store.held ≤ limit) :
    let memory := (Builder.inScope u.memory).holding b.store
    u.capture alive cls thread method =
      match r with
      | .error e => (.error e, b.abandon memory)
      | .ok () => (.ok (some ((b.finish memory).1, b.depth)), (b.finish memory).2) := by
  have hle := hbudget.held_le
  have hstart := Builder.start_of_fits hpos hallowed hgrants (by omega)
  have hrun := hbudget.granted hgrants hfits
  simp only [capture_eq, hstart, hfill, hrun]
  cases r with
  | error e => rfl
  | ok => rfl

/-- With room for the whole trace, `Universe.capture` is done as elsewhere. -/
private theorem capture_of_fits (hlimited : (Builder.inScope u.memory).Limited limit)
    (hallowed : u.memory.safepoints.allowed = true) (hpos : 0 < u.config.backtrace.chunkSize)
    (hfill : u.filling alive cls thread method = some fill)
    (hbudget : Builder.Budgeted (fill (Builder.initial u.config.backtrace.chunkSize))
      (Builder.initial u.config.backtrace.chunkSize) b (.ok ()))
    (hnew : b.reuse = false) (hfits : u.memory.heap.used + b.store.held ≤ limit) :
    ∃ m, u.capture alive cls thread method = (.ok (some (b.store, b.depth)), m) ∧
      m.heap.used = u.memory.heap.used + b.store.held ∧
      m.heap.allocations = u.memory.heap.allocations + b.store.reservations.length := by
  have hcapture := capture_of_granted hlimited.grants hallowed hpos hfill hbudget hfits
  simp only [Builder.finish_of_new hnew] at hcapture
  refine ⟨_, hcapture, ?_, ?_⟩
  · rw [Builder.snd_finish]
    rfl
  · rw [Builder.snd_finish]
    rfl

/-- With less room `Universe.capture` is refused, and gives back what it has charged. -/
private theorem capture_of_not_fits (hlimited : (Builder.inScope u.memory).Limited limit)
    (hallowed : u.memory.safepoints.allowed = true) (hpos : 0 < u.config.backtrace.chunkSize)
    (hfill : u.filling alive cls thread method = some fill)
    (hbudget : Builder.Budgeted (fill (Builder.initial u.config.backtrace.chunkSize))
      (Builder.initial u.config.backtrace.chunkSize) b (.ok ()))
    (hover : limit < u.memory.heap.used + b.store.held) :
    ∃ e m, u.capture alive cls thread method = (.error (.error (.outOfMemory e)), m) ∧
      m.heap.used = u.memory.heap.used := by
  by_cases hfirst :
      u.memory.heap.used + (Builder.initial u.config.backtrace.chunkSize).store.held ≤ limit
  · have hstart := Builder.start_of_fits hpos hallowed hlimited.grants hfirst
    obtain ⟨e, b₁, hrun, hheld⟩ := hbudget.refused hlimited hfirst hover
    refine ⟨e, b₁.abandon ((Builder.inScope u.memory).holding b₁.store), ?_, ?_⟩
    · simp only [capture_eq, hstart, hfill, hrun]
    · have hword := hlimited.limit_lt
      exact Builder.used_abandon (by omega)
  · -- Not even the first chunk is granted
    obtain ⟨e, hstart⟩ := Builder.start_of_not_fits hpos hallowed hlimited (Nat.lt_of_not_le hfirst)
    exact ⟨e, u.memory, by simp only [capture_eq, hstart], rfl⟩

end Limit

/-- A `Universe.capture` that is seen to store a trace when some other heap is in the place of the one
    at hand.  Under a limit it stores the same trace if that fits, and otherwise it is refused and has
    charged nothing. -/
theorem capture_of_limit {limit : Nat} (hlimit : u.memory.heap.limit = some limit)
    (hword : limit < maxWord) {free : Heap} {s : Store} {d : Nat} {m₀ : Memory}
    (h : capture { u with memory := { u.memory with heap := free } } alive cls thread method =
      (.ok (some (s, d)), m₀)) :
    let chunkSize := u.config.backtrace.chunkSize
    let chunks := max 1 ((d + chunkSize - 1) / chunkSize)
    let marker := if s.hasHiddenTop then 1 else 0
    let used := u.memory.heap.used
    let need := chunks * (30 * chunkSize + 32) + marker * 17
    s.frameCount = d ∧
    (used + need ≤ limit → ∃ m, u.capture alive cls thread method = (.ok (some (s, d)), m) ∧
      m.heap.used = used + need ∧
      m.heap.allocations = u.memory.heap.allocations + chunks + marker) ∧
    (limit < used + need → ∃ e m,
      u.capture alive cls thread method = (.error (.error (.outOfMemory e)), m) ∧
        m.heap.used = used) := by
  intro chunkSize chunks marker used need
  obtain ⟨hallowed, hpos, fill, b, hfill, hfresh, rfl, rfl, hchunkSize, hbudget⟩ :=
    budgeted_of_capture h
  have hlimited : (Builder.inScope u.memory).Limited limit :=
    ⟨hlimit, hword, Builder.depth_inScope hallowed⟩
  -- What is to be paid for is what the store holds
  obtain ⟨hcount, hsize⟩ := hfresh.counts
  have hchunks : b.store.chunks.size = chunks := by
    rw [hsize, hchunkSize]
  have hmarker : b.store.hasHiddenTop.toNat = marker := by
    simp only [marker]
    cases b.store.hasHiddenTop <;> rfl
  have hne : 0 < b.store.chunks.size := by
    rw [hsize]
    exact Nat.lt_of_lt_of_le Nat.zero_lt_one (Nat.le_max_left _ _)
  have hprice := hfresh.priced.fits_iff hne hword used
  have hlength := hfresh.priced.length_reservations
  rw [hchunks, hmarker, hchunkSize] at hprice
  rw [hchunks, hmarker] at hlength
  obtain ⟨hiff, hheld⟩ := hprice
  -- The need fits under the limit exactly if what the store holds does
  refine ⟨hcount, fun hfits => ?_, fun hover => ?_⟩
  · obtain ⟨m, hcapture, hused, hallocations⟩ :=
      capture_of_fits hlimited hallowed hpos hfill hbudget hfresh.reuse_eq (hiff.mp hfits)
    refine ⟨m, hcapture, ?_, ?_⟩
    · rw [hused, hheld hfits]
    · rw [hallocations, hlength, Nat.add_assoc]
  · have hroom : ¬ used + b.store.held ≤ limit := mt hiff.mpr (Nat.not_le_of_lt hover)
    exact capture_of_not_fits hlimited hallowed hpos hfill hbudget (Nat.lt_of_not_le hroom)

/-- A `Universe.fillInStackTrace` that leaves a throwable with a trace has stored it by
    `Universe.capture`. -/
private theorem capture_of_fillInStackTrace {u : Universe} (henabled : u.config.backtrace.enabled = true)
    {others : List ClassId} {t : Throwable} (hnew : t.head.preallocated = false) {d : Nat}
    {t' : Throwable} {v : Universe} {s : Store}
    (h : u.fillInStackTrace others t thread method = (.ok d, t', v)) (htrace : t'.head.trace = some s) :
    ∃ m, capture { u with memory := (t.clearTrace u.memory).2 }
        (u.owned ((t.clearTrace u.memory).1.owners ++ others)).contains t.head.cls thread method =
          (.ok (some (s, d)), m) ∧
      t' = t.modifyHead ({ · with trace := some s, depth := d }) := by
  rw [fillInStackTrace_of_fillable henabled others hnew thread method] at h
  simp only at h
  split at h
  · cases h
  · cases h
    cases htrace
  · rename_i s₀ depth m hcapture
    cases h
    cases htrace
    exact ⟨m, hcapture, rfl⟩

/-- `Universe.fillInStackTrace` for a throwable that the runtime did not prepare, where the heap has a
    limit below the largest word, and where a trace is seen to be stored with some other heap in its
    place.  The bytes that count are those of the chunks that the frames need and of the mark for a
    hidden innermost frame, on top of what is charged once the former trace is given back.  If they fit
    under the limit, the same trace is stored and just they are charged, one allocation for each object.
    Otherwise the capture fails with `TraceError.outOfMemory`, there is no trace, and nothing is left
    charged for it. -/
theorem fillInStackTrace_of_limit {u : Universe} (henabled : u.config.backtrace.enabled = true)
    {limit : Nat} (hlimit : u.memory.heap.limit = some limit) (hword : limit < maxWord)
    (others : List ClassId) {t : Throwable} (hnew : t.head.preallocated = false)
    (thread : ManagedThread) (method : Option Method) {free : Heap} {d : Nat} {t' : Throwable}
    {v : Universe} {s : Store}
    (hcapture : fillInStackTrace { u with memory := { u.memory with heap := free } } others t thread
      method = (.ok d, t', v)) (htrace : t'.head.trace = some s) :
    let chunkSize := u.config.backtrace.chunkSize
    let chunks := max 1 ((d + chunkSize - 1) / chunkSize)
    let marker := if s.hasHiddenTop then 1 else 0
    let used := (t.clearTrace u.memory).2.heap.used
    let need := chunks * (30 * chunkSize + 32) + marker * 17
    let (result, t'', u') := u.fillInStackTrace others t thread method
    s.frameCount = d ∧
    (used + need ≤ limit → result = .ok d ∧ t'' = t' ∧ u'.memory.heap.used = used + need ∧
      u'.memory.heap.allocations = u.memory.heap.allocations + chunks + marker) ∧
    (limit < used + need → (∃ e, result = .error (.error (.outOfMemory e))) ∧
      t'' = t.modifyHead ({ · with trace := none, depth := 0 }) ∧ u'.memory.heap.used = used) := by
  intro chunkSize chunks marker used need
  -- Dropping the former trace changes nothing of the heap but what is charged
  have hlimit' : (t.clearTrace u.memory).2.heap.limit = some limit :=
    (Heap.limit_releaseAll _ _).trans hlimit
  have hallocations : (t.clearTrace u.memory).2.heap.allocations = u.memory.heap.allocations :=
    Heap.allocations_releaseAll _ _
  obtain ⟨m₀, hstored, rfl⟩ :=
    capture_of_fillInStackTrace (u := { u with memory := { u.memory with heap := free } })
      henabled hnew hcapture htrace
  have hstored : capture _ (u.owned ((t.clearTrace u.memory).1.owners ++ others)).contains t.head.cls
    thread method = _ := hstored
  obtain ⟨hcount, hgranted, hrefused⟩ :=
    capture_of_limit (u := { u with memory := (t.clearTrace u.memory).2 }) hlimit' hword hstored
  rw [fillInStackTrace_of_fillable henabled others hnew thread method]
  by_cases hfits : used + need ≤ limit
  · obtain ⟨m, hfilled, hused, hallocated⟩ := hgranted hfits
    simp only [hfilled]
    refine ⟨hcount, fun _ => ⟨trivial, rfl, hused, ?_⟩, fun hover => ?_⟩
    · rw [← hallocations]
      exact hallocated
    · exact absurd hfits (Nat.not_le_of_lt hover)
  · obtain ⟨e, m, hfilled, hused⟩ := hrefused (Nat.lt_of_not_le hfits)
    simp only [hfilled]
    exact ⟨hcount, fun hroom => absurd hroom hfits, fun _ => ⟨⟨e, rfl⟩, rfl, hused⟩⟩

/-- `single`, whose heap has a limit and holds 72 bytes. -/
def tight (limit : Nat) : Universe :=
  { single with
    config := { backtrace := { maxDepth := 2, chunkSize := 1 } }
    memory := ⟨⟨some limit, 72, 1⟩, Safepoints.idle⟩ }

/-- A thread in a hidden method that two others have called. -/
def calling : ManagedThread where
  name := "main"
  stack := [.interpreted ⟨⟨0⟩, 0, 1, 1, ⟨"check", 4⟩, ⟨"()V", 3⟩, { hidden := true }, 1, []⟩ 0,
    .interpreted ⟨⟨0⟩, 0, 2, 2, ⟨"run", 5⟩, ⟨"()V", 3⟩, {}, 9, []⟩ 7,
    .interpreted ⟨⟨0⟩, 0, 3, 3, ⟨"main", 6⟩, ⟨"()V", 3⟩, {}, 1, []⟩ 0, .entry]

/-- An error with a trace of one chunk from before, which is 62 of the bytes charged in `tight`. -/
def raisedBefore : Throwable :=
  (Throwable.new ⟨0⟩ none).modifyHead ({ · with trace := some ⟨1, #[Chunk.fresh 1], none⟩ })

/-- `fillInStackTrace_of_limit` where two chunks and the mark take 141 bytes, on top of 10 that remain
    of those charged before: a limit of 151 is enough, and one of 150 is not. -/
theorem fillInStackTrace_tight_calling :
    let (result, _, v) := (tight 151).fillInStackTrace [] raisedBefore calling none
    let (result', t', v') := (tight 150).fillInStackTrace [] raisedBefore calling none
    result = .ok 2 ∧ v.memory.heap.used = 151 ∧ v.memory.heap.allocations = 4 ∧
      (∃ e, result' = .error (.error (.outOfMemory e))) ∧ t'.head.trace.isNone = true ∧
      v'.memory.heap.used = 10 := by
  -- Without a limit the error gets a trace of two frames
  let filled := fillInStackTrace { tight 0 with memory := Memory.ofLimit none } [] raisedBefore
    calling none
  have hfill : filled = (.ok 2, filled.2.1, filled.2.2) :=
    Prod.ext (show filled.1 = .ok 2 by decide +kernel) rfl
  obtain ⟨s, htrace, hmark⟩ : ∃ s, filled.2.1.head.trace = some s ∧ s.hasHiddenTop = true :=
    Option.map_eq_some_iff.mp (show filled.2.1.head.trace.map (·.hasHiddenTop) = some true by
      decide +kernel)
  obtain ⟨-, hfits, -⟩ := fillInStackTrace_of_limit (u := tight 151) rfl rfl (by decide) []
    (t := raisedBefore) rfl calling none hfill htrace
  obtain ⟨-, -, hover⟩ := fillInStackTrace_of_limit (u := tight 150) rfl rfl (by decide) []
    (t := raisedBefore) rfl calling none hfill htrace
  rw [hmark] at hfits hover
  obtain ⟨hok, -, hused, hallocations⟩ := hfits (by decide +kernel)
  obtain ⟨hrefused, ht', hused'⟩ := hover (by decide +kernel)
  refine ⟨hok, hused.trans (by decide +kernel), hallocations, hrefused, ?_,
    hused'.trans (by decide +kernel)⟩
  exact congrArg (·.head.trace.isNone) ht'

end Universe

end StackTrace
