import StackTrace.Program.Liveness
import StackTrace.Settings.Resolved
import StackTrace.Throwable

/-!
# The universe

Everything that one runtime has: its settings, its memory, its program, and a pool of out-of-memory
errors that were made in advance, each with an empty trace, so that reporting an exhausted heap
needs no memory.
-/

namespace StackTrace

/-- The state of a runtime. -/
structure Universe where
  config : RuntimeConfig
  memory : Memory
  names : WellKnownNames
  program : Program
  throwableClass : ClassId
  outOfMemoryClass : ClassId
  /-- The prepared errors that are left; the first is handed out next. -/
  pool : List Throwable

namespace Universe

/-- The names of the classes that every runtime has. -/
def throwableName : String := "kestrel/lang/Throwable"

/-- The name of the class of errors. -/
def errorName : String := "kestrel/lang/Error"

/-- The name of the class of out-of-memory errors. -/
def outOfMemoryName : String := "kestrel/lang/OutOfMemoryError"

/-- Defines a class that every runtime has, with `defineUnregistered`. -/
def bootstrapClass (p : Program) (d : ClassDefinition) : ClassId × Program :=
  match p.defineUnregistered { d with inModule := some ("kestrel.base", none) } with
  | (.error _, p) => (⟨0⟩, p)
  | (.ok id, p) => (id, p.register d.name id)

/-- A one-line method. -/
def oneLine (name : String) (line : Nat) : MethodSpec := MethodSpec.withLine { name } 0 line

/-- The classes that the universe itself keeps alive: its two well-known ones, the `loaded`, and the
    `Throwable.owners` of its pool. -/
def roots (u : Universe) : List ClassId :=
  u.throwableClass :: u.outOfMemoryClass :: (u.program.loaded.values ++
    u.pool.flatMap Throwable.owners)

/-- The classes that the universe and `others` keep alive. -/
def owned (u : Universe) (others : List ClassId) : ClassSet :=
  u.program.owned (u.roots ++ others)

end Universe

end StackTrace
