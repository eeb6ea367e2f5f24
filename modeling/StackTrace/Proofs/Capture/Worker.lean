import StackTrace.Proofs.Capture.Books
import StackTrace.Proofs.Capture.Fill
import StackTrace.Proofs.Capture.Scopes

/-!
# A thread at work

A `Worker` is a thread with the builders that it has open and the throwables that it holds.  It begins
inside some no-safepoint scopes, and does what a thread does to stores and throwables in any order;
between its tasks the heap and the program may change in any way.

The thread has as many unpaused scopes as at its beginning and one for each open builder, at any
moment between its tasks.  A task that has to allocate is carried out if no scope is open but that of
the builder it is about, and otherwise breaks a promise before anything is charged.

## Key results

- `Worker.sound_perform`, `Worker.sound_run`: a task keeps the scopes and the builders in step, and so
  does any sequence of tasks
- `Worker.unbroken_of_idle`, `Worker.unbroken_of_alone`, `Worker.perform_of_nested`: when a task breaks
  the promise of a scope
- `Worker.scopes_of_run`: the scopes of a thread at work
-/

namespace StackTrace

/-- A thread at work in a runtime. -/
structure Worker where
  runtime : Universe
  builders : List Builder
  held : List Throwable

/-- Something that a thread does, with the places of the builder or the throwable it is about. -/
inductive Task where
  /-- Begins a new store. -/
  | start (chunkSize : Nat)
  /-- Begins to fill a store again, whatever store it is. -/
  | reopen (store : Store)
  | build (builder : Nat) (step : BuildStep)
  | finish (builder : Nat)
  /-- Gives up a builder. -/
  | drop (builder : Nat)
  /-- Raises a throwable. -/
  | raise (cls : ClassId) (message : Option String)
  | allocate (throwable : Nat)
  | fill (throwable : Nat) (others : List ClassId) (thread : ManagedThread) (method : Option Method)
  | refill (throwable : Nat) (others : List ClassId) (thread : ManagedThread)
  /-- Asks for an out-of-memory error. -/
  | outOfMemory (others : List ClassId) (thread : ManagedThread) (message : Option String)
  /-- Whatever else goes on in the runtime. -/
  | elapse (heap : Heap) (program : Program)

namespace Worker

/-- A thread inside `depth` scopes that has not done anything yet. -/
def inScopes (depth : Nat) (u : Universe) : Worker :=
  { runtime := { u with memory := { u.memory with safepoints := ⟨depth⟩ } }, builders := [], held := [] }

/-- The memory of the `runtime` that the thread works in. -/
def memory (w : Worker) : Memory := w.runtime.memory

/-- Replaces the memory of the `runtime`. -/
def setMemory (w : Worker) (memory : Memory) : Worker :=
  { w with runtime := { w.runtime with memory } }

/-- Does something with the open builder `builder`. -/
def withBuilder (w : Worker) (builder : Nat)
    (action : Builder → Except (Failure TraceError) Unit × Worker) :
    Except (Failure TraceError) Unit × Worker :=
  match w.builders[builder]? with
  | none => (.ok (), w)
  | some b => action b

/-- Does something with the held throwable `throwable`. -/
def withThrowable {α : Type} (w : Worker) (throwable : Nat)
    (action : Throwable → Except (Failure TraceError) α × Throwable × Universe) :
    Except (Failure TraceError) Unit × Worker :=
  match w.held[throwable]? with
  | none => (.ok (), w)
  | some t =>
    let (result, t, u) := action t
    (result.map fun _ => (), { w with runtime := u, held := w.held.set throwable t })

/-- Carries out a task; reports how it went.  What a task is about that there is not is no task. -/
def perform (w : Worker) : Task → Except (Failure TraceError) Unit × Worker
  | .start chunkSize =>
    match Builder.start chunkSize w.memory with
    | (.error e, memory) => (.error e, w.setMemory memory)
    | (.ok b, memory) => (.ok (), { w.setMemory memory with builders := w.builders ++ [b] })
  | .reopen store =>
    let (b, memory) := Builder.reopen store w.memory
    (.ok (), { w.setMemory memory with builders := w.builders ++ [b] })
  | .build builder step =>
    w.withBuilder builder fun b =>
      let (result, b, memory) := step.perform b w.memory
      (result, { w.setMemory memory with builders := w.builders.set builder b })
  | .finish builder =>
    w.withBuilder builder fun b =>
      (.ok (), { w.setMemory (b.finish w.memory).2 with builders := w.builders.eraseIdx builder })
  | .drop builder =>
    w.withBuilder builder fun b =>
      (.ok (), { w.setMemory (b.abandon w.memory) with builders := w.builders.eraseIdx builder })
  | .raise cls message => (.ok (), { w with held := w.held ++ [Throwable.new cls message] })
  | .allocate throwable => w.withThrowable throwable w.runtime.allocateTrace
  | .fill throwable others thread method =>
    w.withThrowable throwable fun t => w.runtime.fillInStackTrace others t thread method
  | .refill throwable others thread =>
    w.withThrowable throwable fun t => w.runtime.refillStackTrace others t thread
  | .outOfMemory others thread message =>
    let (t, u) := w.runtime.outOfMemoryError others thread message
    -- What came of filling the error is reported here, though nobody is told of it
    ((w.runtime.outOfMemoryOutcome others thread message).map fun _ => (),
      { w with runtime := u, held := w.held ++ [t] })
  | .elapse heap program =>
    (.ok (), { w with runtime := { w.runtime with memory := { w.memory with heap }, program } })

/-- Carries out tasks one after the other by `Worker.perform`, however each one goes. -/
def run (w : Worker) (tasks : List Task) : Worker := tasks.foldl (fun w task => (w.perform task).2) w

/-! ## What a task is about -/

/-- The builders that a task has open besides those that were. -/
def opens : Task → Nat
  | .start _ | .reopen _ | .allocate _ | .fill .. | .refill .. | .outOfMemory .. => 1
  | .build .. | .finish _ | .drop _ | .raise .. | .elapse .. => 0

/-- The number of open builders that `Worker.perform` of a task is not about. -/
def others (w : Worker) : Task → Nat
  | .build builder _ | .finish builder | .drop builder => (w.builders.eraseIdx builder).length
  | _ => w.builders.length

/-- Whether `Worker.perform` has to allocate for a task. -/
def Allocates (w : Worker) : Task → Prop
  | .start _ => True
  | .build builder step => ∃ b, w.builders[builder]? = some b ∧ step.Allocates b
  | .allocate throwable =>
    ∃ t, w.held[throwable]? = some t ∧ w.runtime.config.backtrace.enabled = true
  | .fill throwable .. =>
    ∃ t, w.held[throwable]? = some t ∧ w.runtime.config.backtrace.enabled = true ∧
      t.head.isFillable = true
  | _ => False

/-- The promise that a task breaks if it has to allocate inside a scope.  Chunks without slots are
    refused before it comes to that. -/
def promise : Task → Violation
  | .start 0 => .emptyChunk
  | _ => .safepointInScope

/-- What a task gives back before it allocates anything: `Universe.fillInStackTrace` gives back the
    former trace. -/
def givenUp (w : Worker) : Task → List Reservation
  | .fill throwable .. => (w.held[throwable]?.map (·.head.reservations)).getD []
  | _ => []

/-! ## Scopes and builders in step -/

/-- The scopes that are open are `depth` scopes from before and those of the builders; nothing is in
    disorder. -/
structure Sound (depth : Nat) (w : Worker) : Prop where
  depth_eq : w.memory.safepoints.depth = depth + w.builders.length
  active : ∀ b ∈ w.builders, b.verifier.active = true
  chunkSize_pos : 0 < w.runtime.config.backtrace.chunkSize
  held : ∀ t ∈ w.held, t.head.Consistent
  pool : w.runtime.PoolConsistent

variable {w : Worker} {depth : Nat}

/-- `inScopes` begins in good order, in whatever scopes. -/
private theorem sound_inScopes {config : RuntimeConfig} {u : Universe} (h : Universe.genesis config = .ok u)
    (depth : Nat) : (inScopes depth u).Sound depth where
  depth_eq := rfl
  active := nofun
  chunkSize_pos := by
    have hconfig := Universe.config_genesis h
    have hvalid : config.validate = .ok () := by
      unfold Universe.genesis at h
      split at h
      · exact nomatch h
      · assumption
    exact Universe.chunkSize_pos_of_validate (hconfig ▸ hvalid)
  held := nofun
  pool := fun t ht => Universe.poolConsistent_genesis h t ht

/-- `Worker.Sound` with a further builder and its scope. -/
private theorem Sound.open (hw : w.Sound depth) {b : Builder} {m : Memory}
    (hactive : b.verifier.active = true)
    (hdepth : m.safepoints.depth = w.memory.safepoints.depth + 1) :
    Sound depth { w.setMemory m with builders := w.builders ++ [b] } where
  depth_eq := by
    have := hw.depth_eq
    simp only [memory, setMemory, List.length_append, List.length_singleton] at hdepth this ⊢
    omega
  active := by
    intro b' hb'
    rcases List.mem_append.mp hb' with hb' | hb'
    · exact hw.active b' hb'
    · exact List.mem_singleton.mp hb' ▸ hactive
  chunkSize_pos := hw.chunkSize_pos
  held := hw.held
  pool := hw.pool

/-- `Worker.Sound` with a builder less, and its scope. -/
private theorem Sound.close (hw : w.Sound depth) {builder : Nat} {b : Builder}
    (hb : w.builders[builder]? = some b) {m : Memory}
    (hdepth : m.safepoints.depth = w.memory.safepoints.depth - 1) :
    Sound depth { w.setMemory m with builders := w.builders.eraseIdx builder } where
  depth_eq := by
    have := hw.depth_eq
    have hlength := List.length_eraseIdx_add_one (List.getElem?_eq_some_iff.mp hb).1
    simp only [memory, setMemory] at hdepth this ⊢
    omega
  active := fun b' hb' => hw.active b' (List.mem_of_mem_eraseIdx hb')
  chunkSize_pos := hw.chunkSize_pos
  held := hw.held
  pool := hw.pool

/-- `Worker.setMemory` keeps `Worker.Sound` if the same scopes are open. -/
private theorem Sound.setMemory (hw : w.Sound depth) {m : Memory}
    (hscopes : m.safepoints = w.memory.safepoints) : (w.setMemory m).Sound depth :=
  ⟨(congrArg Safepoints.depth hscopes).trans hw.depth_eq, hw.active, hw.chunkSize_pos, hw.held,
    hw.pool⟩

/-- `Worker.withThrowable` keeps `Worker.Sound` if the action keeps a throwable in order, changes of the
    runtime the memory only, and closes the scopes that it opened. -/
private theorem Sound.withThrowable (hw : w.Sound depth) {α : Type} (throwable : Nat)
    {action : Throwable → Except (Failure TraceError) α × Throwable × Universe}
    (haction : ∀ t, t.head.Consistent → (action t).2.1.head.Consistent ∧
      (∃ memory, (action t).2.2 = { w.runtime with memory }) ∧
      (action t).2.2.memory.safepoints = w.memory.safepoints) :
    (w.withThrowable throwable action).2.Sound depth := by
  unfold Worker.withThrowable
  split
  · exact hw
  · rename_i t ht
    obtain ⟨hconsistent, ⟨memory, hworld⟩, hscopes⟩ := haction t (hw.held t (List.mem_of_getElem? ht))
    rw [hworld] at hscopes
    simp only [hworld]
    refine ⟨(congrArg Safepoints.depth hscopes).trans hw.depth_eq, hw.active, hw.chunkSize_pos,
      fun t' ht' => ?_, hw.pool⟩
    rcases List.mem_or_eq_of_mem_set ht' with ht' | rfl
    · exact hw.held t' ht'
    · exact hconsistent

/-- A task about a builder is carried out with a scope open, by `Worker.Sound`. -/
private theorem Sound.depth_pos (hw : w.Sound depth) {builder : Nat} {b : Builder}
    (hb : w.builders[builder]? = some b) : 0 < w.memory.safepoints.depth := by
  have hlt := (List.getElem?_eq_some_iff.mp hb).1
  have := hw.depth_eq
  omega

/-- By `Worker.Sound` a scope from before, or that of a builder, is open. -/
private theorem Sound.inside (hw : w.Sound depth) (h : 0 < depth + w.builders.length) :
    0 < w.memory.safepoints.depth :=
  hw.depth_eq ▸ h

/-- By `Worker.Sound` no scope is open if there is none from before and no room is left for a
    builder. -/
private theorem Sound.outside (hw : w.Sound 0) (h : w.builders.length + 1 ≤ 1) :
    w.memory.safepoints.depth = 0 := by
  have := hw.depth_eq
  omega

/-- `Worker.perform` keeps the scopes and the builders in step, however the task goes. -/
theorem sound_perform (hw : w.Sound depth) (task : Task) : (w.perform task).2.Sound depth := by
  cases task with
  | start chunkSize =>
    -- A scope is opened exactly if a builder is begun
    rcases Builder.scopes_start chunkSize w.memory with
      ⟨b, m, hstart, hactive, hdepth⟩ | ⟨e, m, hstart, hscopes, -⟩
    · simp only [perform, hstart]
      exact hw.open hactive hdepth
    · simp only [perform, hstart]
      exact hw.setMemory hscopes
  | reopen store => exact hw.open rfl rfl
  | build builder step =>
    simp only [perform, withBuilder]
    split
    · exact hw
    · rename_i b hb
      -- A step leaves the number of builders, and the builder its verifier
      obtain ⟨hscopes, hverifier⟩ := BuildStep.scopes_perform (hw.depth_pos hb) step b
      have hmem := List.mem_of_getElem? hb
      refine ⟨?_, fun b' hb' => ?_, hw.chunkSize_pos, hw.held, hw.pool⟩
      · show (step.perform b w.memory).2.2.safepoints.depth = _
        rw [hscopes, hw.depth_eq, List.length_set]
      · rcases List.mem_or_eq_of_mem_set hb' with hb' | rfl
        · exact hw.active b' hb'
        · exact hverifier ▸ hw.active b hmem
  | finish builder =>
    simp only [perform, withBuilder]
    split
    · exact hw
    · rename_i b hb
      -- The builder that goes takes its scope with it, finished or dropped
      exact hw.close hb (Builder.scopes_close (hw.active b (List.mem_of_getElem? hb)) w.memory).1
  | drop builder =>
    simp only [perform, withBuilder]
    split
    · exact hw
    · rename_i b hb
      exact hw.close hb (Builder.scopes_close (hw.active b (List.mem_of_getElem? hb)) w.memory).2
  | raise cls message =>
    refine ⟨hw.depth_eq, hw.active, hw.chunkSize_pos, fun t ht => ?_, hw.pool⟩
    rcases List.mem_append.mp ht with ht | ht
    · exact hw.held t ht
    · exact List.mem_singleton.mp ht ▸ Throwable.consistent_of_no_trace rfl rfl
  | allocate throwable =>
    exact hw.withThrowable throwable fun t ht => ⟨(Universe.consistent_allocateTrace ht rfl).1,
      w.runtime.world_allocateTrace t, (w.runtime.scopes_allocateTrace t).1⟩
  | fill throwable others thread method =>
    exact hw.withThrowable throwable fun t ht =>
      ⟨(Universe.consistent_fillInStackTrace ht others thread method rfl).1,
        w.runtime.world_fillInStackTrace others t thread method,
        (w.runtime.scopes_fillInStackTrace others t thread method).1⟩
  | refill throwable others thread =>
    exact hw.withThrowable throwable fun t ht =>
      ⟨(Universe.consistent_refillStackTrace ht others thread rfl).1,
        w.runtime.world_refillStackTrace others t thread,
        (Universe.scopes_refillStackTrace ht w.runtime others thread).1⟩
  | outOfMemory others thread message =>
    -- The error passes from the pool to the throwables that are held
    obtain ⟨hconsistent, hpool⟩ :=
      Universe.consistent_outOfMemoryError hw.pool others thread message rfl
    have hscopes := (Universe.scopes_outOfMemoryError hw.pool others thread message).1
    obtain ⟨memory, pool, hworld, -⟩ := w.runtime.world_outOfMemoryError others thread message
    refine ⟨(congrArg Safepoints.depth hscopes).trans hw.depth_eq, hw.active, ?_, fun t ht => ?_, hpool⟩
    · simp only [perform, hworld]
      exact hw.chunkSize_pos
    · rcases List.mem_append.mp ht with ht | ht
      · exact hw.held t ht
      · exact List.mem_singleton.mp ht ▸ hconsistent
  | elapse heap program =>
    exact ⟨hw.depth_eq, hw.active, hw.chunkSize_pos, hw.held, hw.pool⟩

/-- `Worker.run` keeps the scopes and the builders in step. -/
theorem sound_run (hw : w.Sound depth) (tasks : List Task) : (w.run tasks).Sound depth := by
  induction tasks generalizing w with
  | nil => exact hw
  | cons task tasks ih => exact ih (sound_perform hw task)

/-! ## Broken promises -/

/-- What `Worker.withThrowable` answers is what the action on the throwable does. -/
private theorem brokeScope_withThrowable {α : Type} {throwable : Nat}
    {action : Throwable → Except (Failure TraceError) α × Throwable × Universe}
    (h : BrokeScope (w.withThrowable throwable action).1) :
    ∃ t, w.held[throwable]? = some t ∧ BrokeScope (action t).1 := by
  unfold withThrowable at h
  split at h
  · exact absurd h (not_brokeScope_ok _)
  · rename_i t ht
    exact ⟨t, ht, brokeScope_map.mp h⟩

/-- `Worker.withThrowable` of an action that breaks the promise. -/
private theorem withThrowable_of_brokeScope {α : Type}
    (action : Throwable → Except (Failure TraceError) α × Throwable × Universe) {throwable : Nat}
    {t : Throwable} (ht : w.held[throwable]? = some t) (h : BrokeScope (action t).1) :
    BrokeScope (w.withThrowable throwable action).1 ∧
      (w.withThrowable throwable action).2.memory = (action t).2.2.memory := by
  simp only [withThrowable, ht]
  exact ⟨brokeScope_map.mpr h, rfl⟩

/-- `Worker.perform` does not look at the scopes for a task that need not allocate. -/
theorem unbroken_of_idle (hw : w.Sound depth) {task : Task} (hidle : ¬w.Allocates task) :
    ¬BrokeScope (w.perform task).1 := by
  intro hbroken
  -- Case by case over the tasks: either the answer is no broken promise, or `hidle` keeps the
  -- allocation off
  cases task with
  | start chunkSize => exact hidle trivial
  | reopen store => exact not_brokeScope_ok _ hbroken
  | build builder step =>
    simp only [perform, withBuilder] at hbroken
    split at hbroken
    · exact not_brokeScope_ok _ hbroken
    · rename_i b hb
      exact (BuildStep.kept_of_idle (fun h => hidle ⟨b, hb, h⟩) w.memory).unbroken hbroken
  | finish builder =>
    simp only [perform, withBuilder] at hbroken
    split at hbroken
    · exact not_brokeScope_ok _ hbroken
    · exact not_brokeScope_ok _ hbroken
  | drop builder =>
    simp only [perform, withBuilder] at hbroken
    split at hbroken
    · exact not_brokeScope_ok _ hbroken
    · exact not_brokeScope_ok _ hbroken
  | raise cls message => exact not_brokeScope_ok _ hbroken
  | allocate throwable =>
    obtain ⟨t, ht, hbroken⟩ := brokeScope_withThrowable hbroken
    have hdisabled : w.runtime.config.backtrace.enabled = false :=
      Bool.eq_false_iff.mpr fun henabled => hidle ⟨t, ht, henabled⟩
    exact w.runtime.unbroken_allocateTrace hdisabled t hbroken
  | fill throwable others thread method =>
    obtain ⟨t, ht, hbroken⟩ := brokeScope_withThrowable hbroken
    exact w.runtime.unbroken_fillInStackTrace (fun h => hidle ⟨t, ht, h⟩) others thread method hbroken
  | refill throwable others thread =>
    obtain ⟨t, ht, hbroken⟩ := brokeScope_withThrowable hbroken
    have hconsistent := hw.held t (List.mem_of_getElem? ht)
    exact (Universe.scopes_refillStackTrace hconsistent w.runtime others thread).2 hbroken
  | outOfMemory others thread message =>
    have hunbroken := (Universe.scopes_outOfMemoryError hw.pool others thread message).2
    exact hunbroken (brokeScope_map.mp hbroken)
  | elapse heap program => exact not_brokeScope_ok _ hbroken

/-- `Worker.perform` does not break the promise if no scope is open but that of the builder the task is
    about, or opens. -/
theorem unbroken_of_alone (hw : w.Sound 0) {task : Task}
    (halone : w.builders.length + opens task ≤ 1) : ¬BrokeScope (w.perform task).1 := by
  have hdepth := hw.depth_eq
  -- Only a task that allocates looks at the scopes, and it finds its own one at most
  by_cases hallocates : w.Allocates task
  · intro hbroken
    cases task with
    | start chunkSize =>
      rcases Builder.scopes_start chunkSize w.memory with
        ⟨b, m, hstart, -⟩ | ⟨e, m, hstart, -, hunbroken⟩
      · simp only [perform, hstart] at hbroken
        exact not_brokeScope_ok _ hbroken
      · simp only [perform, hstart] at hbroken
        exact hunbroken (hw.outside halone) (Except.error.inj hbroken)
    | build builder step =>
      obtain ⟨b, hb, -⟩ := hallocates
      have hlt := (List.getElem?_eq_some_iff.mp hb).1
      have hone : w.memory.safepoints.depth = 1 := by
        simp only [opens] at halone
        omega
      simp only [perform, withBuilder, hb] at hbroken
      exact (step.kept_of_alone hone).unbroken hbroken
    | allocate throwable =>
      obtain ⟨t, -, hbroken⟩ := brokeScope_withThrowable hbroken
      have hzero := hw.outside halone
      exact (w.runtime.scopes_allocateTrace t).2 hzero hbroken
    | fill throwable others thread method =>
      obtain ⟨t, -, hbroken⟩ := brokeScope_withThrowable hbroken
      have hzero := hw.outside halone
      exact (w.runtime.scopes_fillInStackTrace others t thread method).2 hzero hbroken
    | reopen | finish | drop | raise | refill | outOfMemory | elapse => exact hallocates
  · exact unbroken_of_idle hw hallocates

/-- `Worker.perform` of a task that has to allocate breaks a promise before anything is charged if a
    scope is open besides that of the builder the task is about. -/
theorem perform_of_nested (hw : w.Sound depth) {task : Task} (hnested : 0 < depth + w.others task)
    (hallocates : w.Allocates task) :
    (w.perform task).1 = .error (.violation (promise task)) ∧
      (w.perform task).2.memory = w.memory.releaseAll (w.givenUp task) := by
  have hdepth := hw.depth_eq
  cases task with
  | start chunkSize =>
    have hinside := hw.inside hnested
    cases chunkSize with
    | zero =>
      simp only [perform, Builder.start_zero]
      exact ⟨rfl, rfl⟩
    | succ n =>
      simp only [perform, Builder.start_of_nested (Nat.succ_pos n) hinside]
      exact ⟨rfl, rfl⟩
  | build builder step =>
    obtain ⟨b, hb, hstep⟩ := hallocates
    -- The scope of the builder itself does not count, so there are two at least
    have hlength := List.length_eraseIdx_add_one (List.getElem?_eq_some_iff.mp hb).1
    have hinside : 1 < w.memory.safepoints.depth := by
      simp only [others] at hnested
      omega
    simp only [perform, withBuilder, hb, BuildStep.perform_of_nested hinside hstep]
    exact ⟨rfl, rfl⟩
  | allocate throwable =>
    obtain ⟨t, ht, henabled⟩ := hallocates
    have hinside := hw.inside hnested
    have haction := Universe.allocateTrace_of_nested hw.chunkSize_pos hinside henabled t
    have hbroken : BrokeScope (w.runtime.allocateTrace t).1 := by rw [haction, BrokeScope]
    obtain ⟨hresult, hmemory⟩ := withThrowable_of_brokeScope w.runtime.allocateTrace ht hbroken
    rw [haction] at hmemory
    exact ⟨hresult, hmemory⟩
  | fill throwable others thread method =>
    -- The former trace is given up first, which is what `givenUp` lists
    obtain ⟨t, ht, henabled, hfillable⟩ := hallocates
    have hinside := hw.inside hnested
    obtain ⟨hbroken, hleft⟩ := Universe.fillInStackTrace_of_nested hw.chunkSize_pos hinside henabled
      hfillable others thread method
    obtain ⟨hresult, hmemory⟩ := withThrowable_of_brokeScope
      (fun t => w.runtime.fillInStackTrace others t thread method) ht hbroken
    refine ⟨hresult, hmemory.trans ?_⟩
    simp only [givenUp, ht, Option.map_some, Option.getD_some]
    exact hleft
  | reopen | finish | drop | raise | refill | outOfMemory | elapse => exact hallocates.elim

/-- For a thread that begins inside `depth` scopes, whatever it does: between its tasks the scopes of
    its open builders are open besides, and no others.  A task that need not allocate never breaks the
    promise of a scope.  One that has to does not either, if the thread began outside of any scope and
    has no more than one builder open with it; if it began inside one, or another builder is open, the
    task breaks a promise, and neither charges anything nor changes the depth. -/
theorem scopes_of_run {config : RuntimeConfig} {u : Universe}
    (hgenesis : Universe.genesis config = .ok u) (depth : Nat) (tasks : List Task) {w : Worker}
    (hrun : (inScopes depth u).run tasks = w) :
    w.memory.safepoints.depth = depth + w.builders.length ∧
      ∀ task,
        (¬w.Allocates task → ¬BrokeScope (w.perform task).1) ∧
        (depth = 0 → w.builders.length + opens task ≤ 1 → ¬BrokeScope (w.perform task).1) ∧
        (0 < depth + w.others task → w.Allocates task →
          (w.perform task).1 = .error (.violation (promise task)) ∧
          (w.perform task).2.memory = w.memory.releaseAll (w.givenUp task) ∧
          (w.perform task).2.memory.safepoints.depth = w.memory.safepoints.depth) := by
  have hw : w.Sound depth := hrun ▸ sound_run (sound_inScopes hgenesis depth) tasks
  refine ⟨hw.depth_eq, fun task => ⟨unbroken_of_idle hw, ?_, ?_⟩⟩
  · rintro rfl
    exact unbroken_of_alone hw
  · intro hnested hallocates
    obtain ⟨hresult, hmemory⟩ := perform_of_nested hw hnested hallocates
    exact ⟨hresult, hmemory, congrArg (·.safepoints.depth) hmemory⟩

/-- Settings under which no error is prepared. -/
def unprepared : RuntimeConfig := { backtrace := { preallocatedErrors := 0 } }

/-- A store of one chunk with two slots, both free. -/
def spare : Store := ⟨2, #[⟨2, #[], none, ⟨92⟩⟩], none⟩

/-- A thread inside `depth` scopes that has begun to fill `spare` again. -/
def refilling (depth : Nat) : Worker := (inScopes depth (Universe.boot unprepared)).run [.reopen spare]

/-- `scopes_of_run` for `refilling`.  On a thread in a scope that has begun to fill a store again, two
    scopes are open; to go on in a second chunk breaks the promise and charges nothing.  Outside of any
    scope it does not. -/
theorem scopes_of_run_refilling :
    Universe.genesis unprepared = .ok (Universe.boot unprepared) ∧
    (refilling 1).memory.safepoints.depth = 2 ∧
    BrokeScope ((refilling 1).perform (.build 0 .expand)).1 ∧
    ((refilling 1).perform (.build 0 .expand)).2.memory = (refilling 1).memory ∧
    ¬BrokeScope ((refilling 0).perform (.build 0 .expand)).1 := by
  have hgenesis : Universe.genesis unprepared = .ok (Universe.boot unprepared) := rfl
  obtain ⟨hdepth, hnested⟩ := scopes_of_run hgenesis 1 [.reopen spare] (w := refilling 1) rfl
  obtain ⟨-, halone⟩ := scopes_of_run hgenesis 0 [.reopen spare] (w := refilling 0) rfl
  have hallocates : (refilling 1).Allocates (.build 0 .expand) :=
    ⟨(Builder.reopen spare (refilling 1).memory).1, rfl, fun _ => Nat.le_refl 1⟩
  obtain ⟨hbroken, hmemory, -⟩ := (hnested (.build 0 .expand)).2.2 Nat.one_pos hallocates
  exact ⟨hgenesis, hdepth, hbroken, hmemory, (halone (.build 0 .expand)).2.1 rfl (Nat.le_refl 1)⟩

end Worker

end StackTrace
