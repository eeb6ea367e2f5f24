import StackTrace.Proofs.Store.Pages
import StackTrace.Proofs.Store.Scopes

/-!
# Any operations in any order

The operations of a builder may come in any order, may fail and be repeated, and between them the heap
may change in any way: others allocate on it and give back.  `Builder.run` goes on after failures.

An operation that fails does nothing at all, so it can be left out of a history
(`Builder.unchanged_of_failed`).  Those that succeed write sheets as they should, but a chunk may be left
before it is full, and then the finished store need not replay what was pushed
(`Builder.replay_of_interleaving`).

## Key results

- `BuildStep.unchanged_of_error`: a step that fails leaves builder and memory as they were
- `Builder.LaidOut.run`: what a history writes
- `Builder.replay_of_interleaving`: what is replayed after any steps on memory that never refuses
- `Builder.unchanged_of_failed`: a step that fails, whatever happens before and after it
-/

namespace StackTrace

/-! ## Beginning -/

/-- A builder that `Builder.start` or `Builder.reopen` has just opened, and the memory then. -/
inductive Builder.Begun : Builder → Memory → Prop
  | start {chunkSize : Nat} {m m' : Memory} {b : Builder}
      (h : Builder.start chunkSize m = (.ok b, m')) : Begun b m'
  | reopen {s : Store} (hs : s.Finished) (m : Memory) :
      Begun (Builder.reopen s m).1 (Builder.reopen s m).2

namespace Builder.Begun

variable {b : Builder} {m : Memory}

/-- A builder that has just begun is `Builder.LaidOut` without any steps. -/
theorem laidOut (h : b.Begun m) : b.LaidOut b.store [] := by
  cases h with
  | start h => exact laidOut_start h
  | reopen hs m => exact laidOut_reopen hs.usable m

/-- `Builder.Begun` leaves the scope of the builder open. -/
theorem depth_pos (h : b.Begun m) : 0 < m.safepoints.depth := by
  cases h with
  | @start chunkSize m₀ m' b' h =>
    rcases scopes_start chunkSize m₀ with ⟨b'', m'', hstart, -, hdepth⟩ | ⟨e, m'', hstart, -⟩
    · rw [h] at hstart
      cases hstart
      omega
    · rw [h] at hstart
      cases hstart
  | reopen hs m => exact Nat.succ_pos _

end Builder.Begun

/-! ## Steps that fail -/

/-- An object that is refused in `Memory.paused` leaves no trace. -/
theorem Memory.Asks.unchanged_of_error {α : Type}
    {action : Memory → Except (Failure OutOfMemory) α × Memory} {result : α} {bytes : Nat}
    (hasks : Asks action result bytes) (hneeds : NeedsSafepoint action) {m m' : Memory}
    (hopen : 0 < m.safepoints.depth) {v : Verifier} {e : Failure OutOfMemory}
    (h : m.paused v action = (.error e, m')) : m' = m := by
  by_cases halone : m.safepoints.depth = 1
  · -- The pause lifts the only scope, so it was the heap that refused the object
    rcases hasks.paused_alone halone v with ⟨m'', hok, -⟩ | ⟨e', herror⟩
    · rw [h] at hok
      cases hok
    · rw [h] at herror
      cases herror
      rfl
  · -- Inside a further scope nothing is asked for at all
    have hnested : 1 < m.safepoints.depth := by omega
    rw [paused_of_nested hneeds hnested v] at h
    cases h
    rfl

section Failed

variable {b b' : Builder} {m m' : Memory} {e : Failure TraceError}

/-- A `Builder.expand` that fails has changed nothing. -/
private theorem Builder.unchanged_of_expand_error (hopen : 0 < m.safepoints.depth)
    (h : b.expand m = (.error e, b', m')) : b' = b ∧ m' = m := by
  by_cases hneeds : b.NeedsChunk
  · rw [expand_of_needsChunk hneeds] at h
    split at h
    · rename_i hrefused
      cases h
      exact ⟨rfl, (Chunk.asks_allocate _).unchanged_of_error (Chunk.needsSafepoint_allocate _) hopen
        hrefused⟩
    · cases h
  · rw [expand_of_not_needsChunk hneeds] at h
    cases h

/-- A `BuildStep.perform` that fails has changed nothing, neither the builder nor the memory. -/
theorem BuildStep.unchanged_of_error (hopen : 0 < m.safepoints.depth) {step : BuildStep}
    (h : step.perform b m = (.error e, b', m')) : b' = b ∧ m' = m := by
  cases step with
  | push holder method bci =>
    simp only [perform] at h
    cases hfits : Location.fits bci with
    | false =>
      rw [Builder.push_of_not_fits hfits] at h
      cases h
      exact ⟨rfl, rfl⟩
    | true =>
      obtain ⟨f, -, hpush⟩ := Builder.push_of_fits hfits holder method
      rw [hpush] at h
      split at h
      · cases h
      · -- The index can be stored, so it was the further chunk that was refused
        split at h
        · rename_i hexpand
          cases h
          exact Builder.unchanged_of_expand_error hopen hexpand
        · cases h
  | expand => exact Builder.unchanged_of_expand_error hopen h
  | markHiddenTop =>
    simp only [perform, Builder.markHiddenTop] at h
    split at h
    · cases h
    · split at h
      -- The marker was refused, and a refusal leaves the memory as it was
      · rename_i hrefused
        cases h
        exact ⟨rfl, (Memory.asks_box true).unchanged_of_error (Memory.needsSafepoint_box true) hopen
          hrefused⟩
      · cases h

end Failed

/-! ## Histories -/

/-- What happens while a builder is open. -/
inductive BuildEvent where
  | step (step : BuildStep)
  /-- Others use the heap. -/
  | heap (change : Heap → Heap)

namespace BuildEvent

/-- The step is `BuildStep.perform`; what others do changes the heap alone. -/
def perform (event : BuildEvent) (b : Builder) (m : Memory) :
    Except (Failure TraceError) Unit × Builder × Memory :=
  match event with
  | step s => s.perform b m
  | heap change => (.ok (), b, { m with heap := change m.heap })

/-- The step that the event is, if it is one. -/
def step? : BuildEvent → Option BuildStep
  | step s => some s
  | heap _ => none

/-- A `BuildEvent.perform` that fails has changed nothing, neither the builder nor the memory. -/
theorem unchanged_of_error {event : BuildEvent} {b b' : Builder} {m m' : Memory}
    {e : Failure TraceError} (hopen : 0 < m.safepoints.depth)
    (h : event.perform b m = (.error e, b', m')) : b' = b ∧ m' = m := by
  cases event with
  | step s => exact BuildStep.unchanged_of_error hopen h
  | heap change => cases h

/-- `BuildEvent.perform` keeps the scope of the builder open. -/
private theorem depth_perform {m : Memory} (hopen : 0 < m.safepoints.depth) (event : BuildEvent)
    (b : Builder) : 0 < (event.perform b m).2.2.safepoints.depth := by
  cases event with
  | step s =>
    show 0 < (s.perform b m).2.2.safepoints.depth
    rw [(s.scopes_perform hopen b).1]
    exact hopen
  | heap change => exact hopen

end BuildEvent

/-- The steps among some events. -/
def stepsOf (events : List BuildEvent) : List BuildStep := events.filterMap BuildEvent.step?

/-- For events that are all steps `stepsOf` gives these steps. -/
theorem stepsOf_map_step (steps : List BuildStep) : stepsOf (steps.map .step) = steps := by
  rw [stepsOf, List.filterMap_map]
  exact List.filterMap_some

namespace Builder

/-- Lets events happen one after the other by `BuildEvent.perform`, also after steps that fail. -/
def run : List BuildEvent → Builder → Memory → Builder × Memory
  | [], b, m => (b, m)
  | event :: events, b, m =>
    match event.perform b m with
    | (_, b, m) => run events b m

/-- The events without the steps for which `BuildEvent.perform` fails. -/
def succeeded : List BuildEvent → Builder → Memory → List BuildEvent
  | [], _, _ => []
  | event :: events, b, m =>
    match event.perform b m with
    | (.ok (), b, m) => event :: succeeded events b m
    | (.error _, b, m) => succeeded events b m

section Run

variable {b : Builder} {m : Memory}

/-- `Builder.run` goes through the events in two parts. -/
private theorem run_append (before after : List BuildEvent) (b : Builder) (m : Memory) :
    run (before ++ after) b m = run after (run before b m).1 (run before b m).2 := by
  induction before generalizing b m with
  | nil => rfl
  | cons event before ih => exact ih _ _

/-- `Builder.run` keeps the scope of the builder open. -/
theorem depth_run (hopen : 0 < m.safepoints.depth) (events : List BuildEvent) (b : Builder) :
    0 < (run events b m).2.safepoints.depth := by
  induction events generalizing b m with
  | nil => exact hopen
  | cons event events ih => exact ih (event.depth_perform hopen b) _

/-- `Builder.run` without the steps that fail leads to the same. -/
private theorem run_succeeded (hopen : 0 < m.safepoints.depth) (events : List BuildEvent) (b : Builder) :
    run (succeeded events b m) b m = run events b m ∧
      succeeded (succeeded events b m) b m = succeeded events b m := by
  induction events generalizing b m with
  | nil => exact ⟨rfl, rfl⟩
  | cons event events ih =>
    have hdepth := event.depth_perform hopen b
    obtain ⟨r, b', m', hperform⟩ : ∃ r b' m', event.perform b m = (r, b', m') := ⟨_, _, _, rfl⟩
    rw [hperform] at hdepth
    cases r with
    | ok _ =>
      obtain ⟨hrun, hsucceeded⟩ := ih hdepth b'
      simp only [succeeded, run, hperform, hrun, hsucceeded, and_self]
    | error e =>
      -- The history goes on as if the step had not been tried
      obtain ⟨rfl, rfl⟩ := BuildEvent.unchanged_of_error hopen hperform
      simpa only [succeeded, run, hperform] using ih hopen b'

/-- `Builder.run` writes what the steps write that succeed. -/
theorem LaidOut.run {s : Store} {steps : List BuildStep} (h : b.LaidOut s steps)
    (hopen : 0 < m.safepoints.depth) (events : List BuildEvent) :
    (run events b m).1.LaidOut s (steps ++ stepsOf (succeeded events b m)) := by
  -- Induction on the events, with the steps that have succeeded so far
  induction events generalizing b m steps with
  | nil => simpa [Builder.run, succeeded, stepsOf] using h
  | cons event events ih =>
    have hdepth := event.depth_perform hopen b
    obtain ⟨r, b', m', hperform⟩ : ∃ r b' m', event.perform b m = (r, b', m') := ⟨_, _, _, rfl⟩
    rw [hperform] at hdepth
    cases r with
    | error e =>
      -- A step that failed is as good as none
      obtain ⟨rfl, rfl⟩ := BuildEvent.unchanged_of_error hopen hperform
      simpa only [Builder.run, succeeded, hperform] using ih h hopen
    | ok _ =>
      simp only [Builder.run, succeeded, hperform]
      cases event with
      | step step =>
        have hrest := ih (h.perform hperform) hdepth
        rw [List.append_assoc] at hrest
        exact hrest
      | heap change =>
        -- The heap is no part of the builder
        cases hperform
        exact ih h hdepth

/-! ## Memory that never refuses -/

/-- On memory that never refuses `Builder.expand` always finds a further chunk. -/
private theorem expand_of_neverRefuses (hm : m.NeverRefusesInScope) (b : Builder) :
    ∃ b' m', b.expand m = (.ok (), b', m') ∧ m'.NeverRefusesInScope := by
  by_cases hneeds : b.NeedsChunk
  · have hchunk := Memory.paused_of_charges hm b.verifier
      fun _ hm' => Chunk.allocate_of_neverRefuses hm' b.store.chunkSize
    rw [expand_of_needsChunk hneeds, hchunk]
    exact ⟨_, _, rfl, hm.charged _ _⟩
  · rw [expand_of_not_needsChunk hneeds]
    exact ⟨_, m, rfl, hm⟩

end Run

end Builder

namespace BuildStep

/-- On memory that never refuses, `BuildStep.perform` fails only for a push whose index cannot be
    stored. -/
private theorem perform_of_neverRefuses {m : Memory} (hm : m.NeverRefusesInScope) (step : BuildStep)
    (b : Builder) :
    (step.fits = true ∧ ∃ b' m', step.perform b m = (.ok (), b', m') ∧ m'.NeverRefusesInScope) ∨
    (step.fits = false ∧ ∃ e, step.perform b m = (.error e, b, m)) := by
  cases step with
  | push holder method bci =>
    cases hfits : Location.fits bci with
    | false => exact .inr ⟨hfits, _, Builder.push_of_not_fits hfits b m holder method⟩
    | true =>
      obtain ⟨f, -, hpush⟩ := Builder.push_of_fits hfits holder method
      refine .inl ⟨hfits, ?_⟩
      simp only [perform, hpush]
      split
      · exact ⟨_, m, rfl, hm⟩
      -- The chunk is full, and there is a further one
      · obtain ⟨b', m', hexpand, hm'⟩ := b.expand_of_neverRefuses hm
        rw [hexpand]
        exact ⟨_, m', rfl, hm'⟩
  | expand => exact .inl ⟨rfl, b.expand_of_neverRefuses hm⟩
  | markHiddenTop =>
    refine .inl ⟨rfl, ?_⟩
    simp only [perform, Builder.markHiddenTop]
    split
    · exact ⟨b, m, rfl, hm⟩
    · have hbox := Memory.paused_of_charges hm b.verifier
        fun _ hm' => Memory.box_of_neverRefuses hm' true
      rw [hbox]
      exact ⟨_, _, rfl, hm.charged _ _⟩

end BuildStep

namespace Builder

/-- On memory that never refuses all steps are among `Builder.succeeded` but the pushes whose index
    cannot be stored. -/
theorem succeeded_of_neverRefuses {m : Memory} (hm : m.NeverRefusesInScope)
    (steps : List BuildStep) (b : Builder) :
    succeeded (steps.map .step) b m = (steps.filter BuildStep.fits).map .step := by
  induction steps generalizing b m with
  | nil => rfl
  | cons step steps ih =>
    rcases step.perform_of_neverRefuses hm b with
      ⟨hfits, b', m', hperform, hm'⟩ | ⟨hfits, e, hperform⟩
    · simp only [List.map_cons, succeeded, BuildEvent.perform, hperform, ih hm', List.filter_cons,
        hfits, if_true]
    · simp only [List.map_cons, succeeded, BuildEvent.perform, hperform, ih hm, List.filter_cons,
        hfits, Bool.false_eq_true, if_false]

/-! ## What is replayed -/

/-- The store replays what steps have written over `s`: the pages up to the first that is not full.  If
    every chunk is full that was left, these are the frames of the pushes, in order. -/
structure ReplaysOver (t s : Store) (steps : List BuildStep) : Prop where
  frames_eq : t.frames = readThrough s.chunkSize ((Sheets.ofSteps s.chunkSize steps).pages s)
  hidden_eq : t.hasHiddenTop = steps.any BuildStep.isMark
  of_full : (∀ sheet ∈ (Sheets.ofSteps s.chunkSize steps).left, sheet.length = s.chunkSize) →
    List.Forall₂ StoredFrame.IsOf t.frames (recordings steps)

/-- What `Builder.finish` leaves of a `Builder.LaidOut` store replays its pages. -/
theorem LaidOut.replaysOver {b : Builder} {s : Store} {steps : List BuildStep}
    (h : b.LaidOut s steps) (m : Memory) : ReplaysOver (b.finish m).1 s steps where
  frames_eq := h.frames_finish m
  hidden_eq := by
    rw [Store.hasHiddenTop, hiddenTop_finish]
    exact h.hidden_eq
  of_full := by
    intro hfull
    rw [h.frames_finish, Sheets.readThrough_pages_of_full h.usable hfull]
    exact h.isOf

/-- Marks are among the steps that `BuildStep.fits`. -/
private theorem any_isMark_filter_fits (steps : List BuildStep) :
    (steps.filter BuildStep.fits).any BuildStep.isMark = steps.any BuildStep.isMark := by
  have hmark : ∀ step : BuildStep, (step.fits && step.isMark) = step.isMark := by
    intro step
    cases step with
    | push => exact Bool.and_false _
    | expand => rfl
    | markHiddenTop => rfl
  simp only [List.any_filter, hmark]

/-- After any steps by `Builder.run` on memory that never refuses: all of them have succeeded but the
    pushes whose index cannot be stored, and every frame has been written and counted.  The finished
    store replays the pages up to the first that is not full.  This is what was pushed, and as much as
    was counted, if every chunk is full that was left; on a new store it is always the beginning of what
    was pushed, and all of it exactly if there is no gap. -/
theorem replay_of_interleaving {b₀ : Builder} {m₀ : Memory} (hbegun : b₀.Begun m₀)
    (hm₀ : m₀.NeverRefusesInScope) (steps : List BuildStep) :
    let made := steps.filter BuildStep.fits
    let b := (run (steps.map .step) b₀ m₀).1
    let s := (b.finish (run (steps.map .step) b₀ m₀).2).1
    let sheets := Sheets.ofSteps b₀.store.chunkSize made
    succeeded (steps.map .step) b₀ m₀ = made.map .step ∧
    List.Forall₂ StoredFrame.IsOf sheets.frames (recordings made) ∧
    b.depth = (recordings made).length ∧
    ReplaysOver s b₀.store made ∧
    s.hasHiddenTop = steps.any BuildStep.isMark ∧
    ((∀ sheet ∈ sheets.left, sheet.length = b₀.store.chunkSize) → s.frameCount = b.depth) ∧
    (b₀.reuse = false → s.frames <+: sheets.frames ∧
      (s.frameCount = b.depth ↔ sheets.GapFree b₀.store.chunkSize)) := by
  intro made b s sheets
  have hsucceeded : succeeded (steps.map .step) b₀ m₀ = made.map .step :=
    succeeded_of_neverRefuses hm₀ steps b₀
  -- What was written is what the steps write that succeeded
  have hlaid : b.LaidOut b₀.store made := by
    have hrun := hbegun.laidOut.run hbegun.depth_pos (steps.map .step)
    rwa [hsucceeded, stepsOf_map_step, List.nil_append] at hrun
  have hreplays : ReplaysOver s b₀.store made := hlaid.replaysOver _
  have hlength : sheets.frames.length = b.depth := by
    rw [hlaid.depth_eq, hlaid.isOf.length_eq]
  -- Each part is read off the pages, with gaps or without
  refine ⟨hsucceeded, hlaid.isOf, hlaid.depth_eq, hreplays, ?_, fun hfull => ?_, fun hnew => ?_⟩
  · rw [hreplays.hidden_eq]
    exact any_isMark_filter_fits steps
  · rw [Store.frameCount, (hreplays.of_full hfull).length_eq, hlaid.depth_eq]
  · rw [Store.frameCount, hreplays.frames_eq, ← hlength]
    exact (hbegun.laidOut.covers_of_new hnew sheets).readThrough_pages _

/-- A step that pushes an activation of one method. -/
private def runningAt (bci : Int) : BuildStep :=
  .push ⟨⟨0⟩, ⟨"acme/Widget", 0⟩, none, none, none, ⟨0, none, #[]⟩, [], 0⟩
    ⟨⟨0⟩, 0, 0, 0, ⟨"run", 1⟩, ⟨"()V", 2⟩, {}, 1, []⟩ bci

/-- `replay_of_interleaving` where a store with frames of the indices 0, 1 and 2 in chunks of two slots
    is filled again.  The first chunk is left after one frame: it goes on to show the frame of index 1,
    so three frames are replayed though two were pushed. -/
theorem replay_of_interleaving_leftover :
    ∃ (b₀ : Builder) (m₀ : Memory), b₀.Begun m₀ ∧ m₀.NeverRefusesInScope ∧
      let out := run ([runningAt 7, .expand, runningAt 8].map .step) b₀ m₀
      out.1.depth = 2 ∧ (out.1.finish out.2).1.frames.map (·.location.bci) = [7, 1, 8] := by
  obtain ⟨s, m, hbuild, hm⟩ : ∃ s m, Store.build 2 [runningAt 0, runningAt 1, runningAt 2]
      (Memory.ofLimit none) = (.ok s, m) ∧ m.NeverRefuses :=
    ⟨_, _, rfl, ⟨nofun, by decide⟩, rfl⟩
  have hbegun := Begun.reopen (Store.finished_of_build hbuild) m
  have hscope := neverRefuses_reopen s hm
  obtain ⟨-, -, hdepth, hreplays, -⟩ :=
    replay_of_interleaving hbegun hscope [runningAt 7, .expand, runningAt 8]
  refine ⟨_, _, hbegun, hscope, hdepth.trans (by decide), ?_⟩
  -- Two pages: the sheet of the first with an earlier frame behind it, and the sheet of the second
  rw [hreplays.frames_eq]
  cases hbuild
  decide +kernel

/-- A frame may be lost that `Builder.push` has pushed: in chunks of two slots, one that is pushed after
    the first chunk was left with one frame in it. -/
theorem not_replay_of_pushed : ¬ ∀ (b₀ : Builder) (m₀ : Memory) (steps : List BuildStep),
    b₀.Begun m₀ → m₀.NeverRefusesInScope → (∀ step ∈ steps, step.fits = true) →
    let out := run (steps.map .step) b₀ m₀
    let s := (out.1.finish out.2).1
    List.Forall₂ StoredFrame.IsOf s.frames (recordings steps) ∧ s.frameCount = out.1.depth := by
  intro hreplayed
  obtain ⟨b₀, m₀, hstart, hm₀⟩ : ∃ b₀ m₀, start 2 (Memory.ofLimit none) = (.ok b₀, m₀) ∧
      m₀.NeverRefusesInScope := ⟨_, _, rfl, ⟨nofun, by decide⟩, rfl⟩
  have hcount := (hreplayed b₀ m₀ [runningAt 1, .expand, runningAt 2] (.start hstart) hm₀ (by decide)).2
  cases hstart
  exact absurd hcount (by decide +kernel)

/-- Whatever has happened to a builder, a `BuildStep.perform` that fails now has no effect: the builder
    and the memory are as before, and whatever happens afterwards has the same outcome as without it.
    So the steps that failed can all be left out, and what is finished replays those that succeeded. -/
theorem unchanged_of_failed {b₀ : Builder} {m₀ : Memory} (hbegun : b₀.Begun m₀)
    (before : List BuildEvent) :
    let b := (run before b₀ m₀).1
    let m := (run before b₀ m₀).2
    let kept := succeeded before b₀ m₀
    (∀ (step : BuildStep) (e : Failure TraceError) (b' : Builder) (m' : Memory),
      step.perform b m = (.error e, b', m') → b' = b ∧ m' = m ∧
        ∀ after, run (before ++ .step step :: after) b₀ m₀ = run (before ++ after) b₀ m₀) ∧
    run kept b₀ m₀ = (b, m) ∧ succeeded kept b₀ m₀ = kept ∧
    b.depth = (recordings (stepsOf kept)).length ∧
    b.store.hasHiddenTop = (stepsOf kept).any BuildStep.isMark ∧
    ReplaysOver (b.finish m).1 b₀.store (stepsOf kept) := by
  intro b m kept
  have hopen : 0 < m.safepoints.depth := depth_run hbegun.depth_pos before b₀
  have hlaid : b.LaidOut b₀.store (stepsOf kept) :=
    hbegun.laidOut.run hbegun.depth_pos before
  obtain ⟨hrun, hkept⟩ := run_succeeded hbegun.depth_pos before b₀
  refine ⟨fun step e b' m' hfailed => ?_, hrun, hkept, hlaid.depth_eq, hlaid.hidden_eq,
    hlaid.replaysOver m⟩
  -- The step that failed may be left out of any history that goes on from here
  obtain ⟨hb, hm⟩ := BuildStep.unchanged_of_error hopen hfailed
  refine ⟨hb, hm, fun after => ?_⟩
  have hperform : (BuildEvent.step step).perform b m = (.error e, b, m) := by
    rw [hb, hm] at hfailed
    exact hfailed
  rw [run_append, run_append, run, hperform]

/-- `unchanged_of_failed` in chunks of one slot, on a heap where others hold fifty bytes: there is no
    room for a second chunk, so the second push fails.  When the others have given back what they hold
    it succeeds, and the store is what it would have been without the first attempt. -/
theorem unchanged_of_failed_retried :
    ∃ (b₀ : Builder) (m₀ : Memory), b₀.Begun m₀ ∧
      let b := (run [.step (runningAt 3)] b₀ m₀).1
      let m := (run [.step (runningAt 3)] b₀ m₀).2
      let freed : List BuildEvent := [.heap (·.release ⟨50⟩), .step (runningAt 4)]
      (∃ refusal, (runningAt 4).perform b m = (.error (.error (.outOfMemory refusal)), b, m)) ∧
      run ([.step (runningAt 3)] ++ .step (runningAt 4) :: freed) b₀ m₀ =
        run ([.step (runningAt 3)] ++ freed) b₀ m₀ ∧
      (run ([.step (runningAt 3)] ++ freed) b₀ m₀).1.depth = 2 := by
  obtain ⟨b₀, m₀, hstart⟩ : ∃ b₀ m₀,
      start 1 ⟨⟨some 150, 50, 1⟩, Safepoints.idle⟩ = (.ok b₀, m₀) := ⟨_, _, rfl⟩
  have hbegun := Begun.start hstart
  -- The second push asks for a chunk, for which there is no room
  obtain ⟨refusal, b', m', hfailed⟩ : ∃ refusal b' m', (runningAt 4).perform
      (run [.step (runningAt 3)] b₀ m₀).1 (run [.step (runningAt 3)] b₀ m₀).2 =
        (.error (.error (.outOfMemory refusal)), b', m') := by
    cases hstart
    exact ⟨_, _, _, rfl⟩
  obtain ⟨rfl, rfl, hafter⟩ := (unchanged_of_failed hbegun [.step (runningAt 3)]).1 _ _ _ _ hfailed
  refine ⟨b₀, m₀, hbegun, ⟨refusal, hfailed⟩, hafter _, ?_⟩
  cases hstart
  decide +kernel

end Builder

end StackTrace
