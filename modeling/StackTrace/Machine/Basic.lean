import StackTrace.Memory.Holdings
import StackTrace.Universe.Capture

/-!
# A machine: a universe in use

A `Machine` is a universe together with everything that a program holds in it by name: threads,
throwables, compiled code, methods, pinned classes, and memory.  Requests name classes and methods
by references, which may fail to resolve.

A class stays alive through the universe, a pin, or a throwable; what threads, code and held methods
refer to may be gone.
-/

namespace StackTrace

/-- A class by its name in the registry, or as it was pinned. -/
inductive ClassRef where
  | loaded (name : String)
  | pinned (name : String)
  deriving DecidableEq, Repr

/-- A method by its name in the version in force, by stored number and generation, or as it is
    held. -/
inductive MethodRef where
  | named (cls : ClassRef) (name : String)
  | numbered (cls : ClassRef) (ordinal generation : Nat)
  | held (name : String)
  deriving DecidableEq, Repr

/-- Why a request was not carried out. -/
inductive RequestError where
  | noClass (ref : ClassRef)
  | noMethod (ref : MethodRef)
  | noThrowable (name : String)
  /-- There is no throwable to become the cause of another. -/
  | noCause (name : String)
  | noThread (name : String)
  | noCode (name : String)
  | registry (e : RegistryError)
  | outOfMemory (e : OutOfMemory)
  | violation (v : Violation)
  deriving DecidableEq, Repr

/-- A `Failure` as the error of a request. -/
def RequestError.ofFailure {ε : Type} (f : ε → RequestError) : Failure ε → RequestError
  | .error e => f e
  | .violation v => .violation v

/-- A `Universe` in use, with what is held in it by name. -/
structure Machine where
  world : Universe
  threads : Table ManagedThread
  throwables : Table Throwable
  code : Table CompiledCode
  methods : Table Method
  pins : Table ClassId
  holdings : Holdings

namespace Machine

/-- A universe that nothing is held in yet: every `Table` is empty. -/
def ofUniverse (u : Universe) : Machine :=
  { world := u, threads := Table.empty, throwables := Table.empty, code := Table.empty,
    methods := Table.empty, pins := Table.empty, holdings := Holdings.empty }

/-- The loaded program. -/
def program (m : Machine) : Program := m.world.program

/-- The classes that pins and throwables keep alive. -/
def owners (m : Machine) : List ClassId :=
  m.pins.values ++ m.throwables.values.flatMap Throwable.owners

/-- The classes that are alive: those that the universe keeps alive together with `owners`, by
    `Universe.owned`. -/
def owned (m : Machine) : ClassSet := m.world.owned m.owners

/-- The bytes charged to the heap (`used`) and the number of allocations. -/
def heapCounts (m : Machine) : Nat × Nat :=
  (m.world.memory.heap.used, m.world.memory.heap.allocations)

/-- Replaces the memory. -/
def setMemory (m : Machine) (memory : Memory) : Machine :=
  { m with world := { m.world with memory } }

/-- Replaces the program. -/
def setProgram (m : Machine) (program : Program) : Machine :=
  { m with world := { m.world with program } }

/-- The class that a reference names, if it is `loaded` or `pinned`. -/
def resolveClass (m : Machine) (r : ClassRef) : Except RequestError Class :=
  let id := match r with
    | .loaded name => m.program.lookup name
    | .pinned name => m.pins.get? name
  match id.bind m.program.get? with
  | some c => .ok c
  | none => .error (.noClass r)

/-- The method that a reference names. -/
def resolveMethod (m : Machine) (r : MethodRef) : Except RequestError Method := do
  let found ← match r with
    | .named cls name => do pure ((← m.resolveClass cls).findMethod name)
    | .numbered cls ordinal generation => do
      pure ((← m.resolveClass cls).methodWithOrdinal ordinal generation)
    | .held name => pure (m.methods.get? name)
  match found with
  | some method => return method
  | none => throw (.noMethod r)

/-- The throwable of a name. -/
def resolveThrowable (m : Machine) (name : String) : Except RequestError Throwable :=
  match m.throwables.get? name with
  | some t => .ok t
  | none => .error (.noThrowable name)

/-- The code of a name. -/
def resolveCode (m : Machine) (name : String) : Except RequestError CompiledCode :=
  match m.code.get? name with
  | some c => .ok c
  | none => .error (.noCode name)

/-- The thread of a name; one that was not named before has an empty stack, as `ensureThread` then makes
    it. -/
def threadOf (m : Machine) (name : String) : ManagedThread :=
  (m.threads.get? name).getD (ManagedThread.named name)

/-- Makes sure that there is a thread of a name. -/
def ensureThread (m : Machine) (name : String) : Machine :=
  if m.threads.contains name then m else { m with threads := m.threads.insert name (m.threadOf name) }

/-- Takes a throwable out of its table, with its charges still held; see `releaseThrowable`. -/
def takeThrowable (m : Machine) (name : String) : Option Throwable × Machine :=
  (m.throwables.get? name, { m with throwables := m.throwables.erase name })

/-- Gives back all `reservations` of a throwable. -/
def releaseThrowable (m : Machine) (t : Throwable) : Machine :=
  m.setMemory (m.world.memory.releaseAll t.reservations)

/-- Drops the throwable of a name, if there is one: `takeThrowable` and then `releaseThrowable`. -/
def dropThrowable (m : Machine) (name : String) : Bool × Machine :=
  match m.takeThrowable name with
  | (none, m) => (false, m)
  | (some t, m) => (true, m.releaseThrowable t)

/-- Keeps a throwable under a name; one that had the name goes as in `dropThrowable`. -/
def putThrowable (m : Machine) (name : String) (t : Throwable) : Machine :=
  let (_, m) := m.dropThrowable name
  { m with throwables := m.throwables.insert name t }

end Machine

end StackTrace
