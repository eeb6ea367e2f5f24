import StackTrace.Stack.Filter
import StackTrace.Stack.Walk
import StackTrace.Trace.Builder
import StackTrace.Universe.Basic

/-!
# Capturing traces

A capture walks the stack of a thread and records what the filter lets pass into a new store, up to
the depth that the settings allow.  Where the walk meets unreadable debug info, a bytecode index does
not fit or memory runs out, the capture is abandoned and the throwable is left without a trace.

A throwable that the runtime prepared is not captured for; its store is filled again in place,
unfiltered and with one chunk at most, and kept even if the walk fails part way.

`others` are the classes that are kept alive from outside the universe and the throwable at hand.
-/

namespace StackTrace

/-- Whether a capture has recorded as many frames as `maxDepth` allows; 0 stands for any number. -/
def atMaxDepth (maxDepth : Nat) (b : Builder) : Bool := maxDepth != 0 && b.depth == maxDepth

/-- Records the activations that the filter lets pass; `error` is what ended the walk behind
    them. -/
def recordAll (p : FilterPolicy) (maxDepth : Nat) (error : Option DebugInfo.Error)
    (f : FrameFilter) (b : Builder) (m : Memory) :
    List Activation → Except (Failure TraceError) Unit × Builder × Memory
  | [] =>
    if atMaxDepth maxDepth b then (.ok (), b, m)
    else
      match error with
      | none => (.ok (), b, m)
      | some e => (.error (.error (.debugInfo e)), b, m)
  | a :: rest =>
    if atMaxDepth maxDepth b then (.ok (), b, m)
    else
      match p.program.holder p.alive a.method with
      | none => recordAll p maxDepth error f b m rest
      | some holder =>
        match f.decide p a.method with
        | (.record, f) =>
          match b.push m holder a.method a.bci with
          | (.error e, b, m) => (.error e, b, m)
          | (.ok (), b, m) => recordAll p maxDepth error f b m rest
        | (.skipHidden, f) =>
          if b.depth = 0 then
            match b.markHiddenTop m with
            | (.error e, b, m) => (.error e, b, m)
            | (.ok (), b, m) => recordAll p maxDepth error f b m rest
          else recordAll p maxDepth error f b m rest
        | (_, f) => recordAll p maxDepth error f b m rest

/-- Records activations without a filter until `limit` frames are written.  While the store is being
    overwritten, it still keeps the classes alive that are left in it. -/
def refillAll (p : Program) (outside : ClassSet) (limit : Nat) (error : Option DebugInfo.Error)
    (b : Builder) (m : Memory) :
    List Activation → Except (Failure TraceError) Unit × Builder × Memory
  | [] =>
    match error with
    | none => (.ok (), b, m)
    | some e => (.error (.error (.debugInfo e)), b, m)
  | a :: rest =>
    let alive (c : ClassId) : Bool :=
      outside.contains c || b.store.owners.any fun o => (p.ancestors o).contains c
    match p.holder alive a.method with
    | none => refillAll p outside limit error b m rest
    | some holder =>
      match b.push m holder a.method a.bci with
      | (.error e, b, m) => (.error e, b, m)
      | (.ok (), b, m) =>
        if limit ≤ b.depth then (.ok (), b, m) else refillAll p outside limit error b m rest

namespace Universe

/-- Captures the stack of a thread for a throwable of class `cls`.  A thread that has not run managed
    code yet has the one frame of the method it is about to run, if there is one. -/
def capture (u : Universe) (alive : ClassId → Bool) (cls : ClassId) (thread : ManagedThread)
    (method : Option Method) :
    Except (Failure TraceError) (Option (Store × Nat)) × Memory :=
  match Builder.start u.config.backtrace.chunkSize u.memory with
  | (.error e, m) => (.error e, m)
  | (.ok b, m) =>
    let finished : Except (Failure TraceError) Unit × Builder × Memory →
        Except (Failure TraceError) (Option (Store × Nat)) × Memory
      | (.error e, b, m) => (.error e, b.abandon m)
      | (.ok (), b, m) =>
        let depth := b.depth
        let (store, m) := b.finish m
        (.ok (some (store, depth)), m)
    if thread.hasManagedFrame then
      let policy : FilterPolicy :=
        { program := u.program, names := u.names, alive, throwableClass := cls,
          showHidden := u.config.backtrace.showHiddenFrames }
      let walk := Walk.ofStack thread.stack
      finished (recordAll policy u.config.backtrace.maxDepth walk.error FrameFilter.start b m
        walk.activations)
    else
      match method.bind fun method => (u.program.holder alive method).map (method, ·) with
      | none => (.ok none, b.abandon m)
      | some (method, holder) => finished (b.push m holder method 0)

/-- Captures the stack of a thread into a throwable with a new `Builder`; reports the recorded depth. -/
def fillInStackTrace (u : Universe) (others : List ClassId) (t : Throwable)
    (thread : ManagedThread) (method : Option Method) :
    Except (Failure TraceError) Nat × Throwable × Universe :=
  if !u.config.backtrace.enabled || !t.head.isFillable then (.ok t.head.depth, t, u)
  else
    let (t, memory) := t.clearTrace u.memory
    let u := { u with memory }
    let alive := (u.owned (t.owners ++ others)).contains
    match u.capture alive t.head.cls thread method with
    | (.error e, memory) => (.error e, t, { u with memory })
    | (.ok none, memory) => (.ok 0, t, { u with memory })
    | (.ok (some (store, depth)), memory) =>
      let (t, memory) := t.setTrace store depth memory
      (.ok depth, t, { u with memory })

/-- Fills the store of a throwable again with `Builder.reopen`, without allocating; reports the recorded
    depth. -/
def refillStackTrace (u : Universe) (others : List ClassId) (t : Throwable)
    (thread : ManagedThread) : Except (Failure TraceError) Nat × Throwable × Universe :=
  if !u.config.backtrace.enabled then (.ok 0, t, u)
  else
    match t.takeTrace with
    | (none, t) => (.ok 0, t, u)
    | (some store, t) =>
      let limit := store.chunkSize
      let (b, m) := Builder.reopen store u.memory
      let outside := u.owned (t.owners ++ others)
      let walk := Walk.ofStack thread.stack
      let (result, b, m) := refillAll u.program outside limit walk.error b m walk.activations
      let depth := b.depth
      let (store, m) := b.finish m
      let (t, memory) := t.setTrace store depth m
      (result.map fun _ => depth, t, { u with memory })

/-- Gives a throwable an empty store that `refillStackTrace` fills later. -/
def allocateTrace (u : Universe) (t : Throwable) :
    Except (Failure TraceError) Unit × Throwable × Universe :=
  if !u.config.backtrace.enabled then (.ok (), t, u)
  else
    match Builder.start u.config.backtrace.chunkSize u.memory with
    | (.error e, memory) => (.error e, t, { u with memory })
    | (.ok b, m) =>
      let (store, m) := b.finish m
      let (t, memory) := t.setTrace store 0 m
      (.ok (), t, { u with memory })

/-- Prepares `count` more out-of-memory errors. -/
def prepareErrors (u : Universe) : (count : Nat) → Except (Failure TraceError) Universe
  | 0 => .ok u
  | count + 1 =>
    match u.allocateTrace (Throwable.prepared u.outOfMemoryClass) with
    | (.error e, _, _) => .error e
    | (.ok (), t, u) => prepareErrors { u with pool := t :: u.pool } count

/-- The runtime that settings describe, before any error is prepared. -/
def boot (config : RuntimeConfig) : Universe :=
  let (names, symbols) := WellKnownNames.intern SymbolTable.empty
  let program : Program := { Program.empty with symbols }
  let (throwableClass, program) := bootstrapClass program
    { name := throwableName
      sourceFile := some "Throwable.kst"
      methods := [oneLine "<init>" 250, oneLine "fillInStackTrace" 780,
        oneLine "getStackTrace" 820] }
  let (errorClass, program) := bootstrapClass program
    { name := errorName
      super := some throwableClass
      sourceFile := some "Error.kst"
      methods := [oneLine "<init>" 40] }
  let (outOfMemoryClass, program) := bootstrapClass program
    { name := outOfMemoryName
      super := some errorClass
      sourceFile := some "OutOfMemoryError.kst"
      methods := [oneLine "<init>" 30] }
  { config, memory := Memory.ofLimit config.heap.limitBytes, names, program, throwableClass,
    outOfMemoryClass, pool := [] }

/-- The bytes of one prepared error in the pool. -/
def pooledErrorBytes : Nat := 88

/-- Starts the runtime that `boot` gives and prepares its errors.  The room for the pool is set aside
    even if no error is prepared. -/
def genesis (config : RuntimeConfig) : Except (Failure TraceError) Universe :=
  match config.validate with
  | .error e => .error (.error (.invalidConfig (ConfigError.invalidValue e).message))
  | .ok () =>
    match Buffer.setAside pooledErrorBytes config.backtrace.preallocatedErrors with
    | .error v => .error (.violation v)
    | .ok () =>
      let u := boot config
      if config.backtrace.enabled then u.prepareErrors config.backtrace.preallocatedErrors
      else .ok u

/-- An out-of-memory error for a thread.  A prepared one is handed out with the stack of the thread as
    far as `refillStackTrace` can record it; when none is left, the error has no trace. -/
def outOfMemoryError (u : Universe) (others : List ClassId) (thread : ManagedThread)
    (message : Option String) : Throwable × Universe :=
  let plain := (Throwable.prepared u.outOfMemoryClass).modifyHead ({ · with message })
  if !u.config.backtrace.enabled then (plain, u)
  else
    match u.pool with
    | [] => (plain, u)
    | t :: pool =>
      let t := t.modifyHead ({ · with message })
      let (_, t, u) := { u with pool }.refillStackTrace others t thread
      (t, u)

end Universe

end StackTrace
