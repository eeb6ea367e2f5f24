import StackTrace.Program.Registry
import StackTrace.Trace.Builder
import StackTrace.Trace.Replay

/-!
# A builder at work

A `Workbench` is one class, a heap, at most one open builder, and the finished stores by name.  Its
operations are those of the builder together with what becomes of stores: a finished store replaces
an older one of its name, and what is replaced or dropped gives its charges back.
-/

namespace StackTrace

/-- A request to the workbench that makes no sense there. -/
inductive Misuse where
  | noOpenBuilder
  | noSuchStore
  | noSuchMethod
  deriving DecidableEq, Repr

/-- The wording of a misuse. -/
def Misuse.message : Misuse → String
  | noOpenBuilder => "no open builder"
  | noSuchStore => "no such store"
  | noSuchMethod => "no such method"

/-- Why a step of the workbench was not done. -/
inductive StepError where
  | misuse (e : Misuse)
  | failed (e : Failure TraceError)
  /-- There was no room for an allocation that is not part of a store. -/
  | noRoom (e : OutOfMemory)

/-- The state of the workbench. -/
structure Workbench where
  program : Program
  /-- The class whose frames are recorded. -/
  cls : ClassId
  memory : Memory
  builder : Option Builder
  finished : Table Store

namespace Workbench

/-- A workbench for a new class, on an unused heap; `Program.define` may reject the class. -/
def ofClass (d : ClassDefinition) (limit : Option Nat) : Except Violation Workbench :=
  match Program.empty.defineUnregistered d with
  | (.error v, _) => .error v
  | (.ok cls, program) =>
    .ok { program, cls, memory := Memory.ofLimit limit, builder := none, finished := Table.empty }

/-- Drops a builder that is still open, by `Builder.abandon`. -/
def dropBuilder (w : Workbench) : Workbench :=
  match w.builder with
  | none => w
  | some b => { w with builder := none, memory := b.abandon w.memory }

/-- Drops a store. -/
def dropStore (w : Workbench) (name : String) : Workbench :=
  match w.finished.get? name with
  | none => w
  | some s =>
    { w with finished := w.finished.erase name, memory := w.memory.releaseAll s.reservations }

/-- Opens a builder on a new store with `Builder.start`.  A builder that is already open forbids it and
    stays. -/
def start (w : Workbench) (chunkSize : Nat) : Except StepError Unit × Workbench :=
  match Builder.start chunkSize w.memory with
  | (.error e, memory) => (.error (.failed e), { w with memory })
  | (.ok b, memory) =>
    let w := { w with memory }
    (.ok (), { w.dropBuilder with builder := some b })

/-- Records an activation `repeats` times; reports how the last time went. -/
def pushMany (holder : Class) (method : Method) (bci : Int) (b : Builder) (m : Memory) :
    (repeats : Nat) → Except (Failure TraceError) Unit × Builder × Memory
  | 0 => (.ok (), b, m)
  | 1 => b.push m holder method bci
  | repeats + 2 =>
    match b.push m holder method bci with
    | (_, b, m) => pushMany holder method bci b m (repeats + 1)

/-- Replaces the open builder by what `action` makes of it. -/
def withBuilder (w : Workbench)
    (action : Builder → Memory → Except (Failure TraceError) Unit × Builder × Memory) :
    Except StepError Unit × Workbench :=
  let ⟨program, cls, memory, builder, finished⟩ := w
  match builder with
  | none => (.error (.misuse .noOpenBuilder), ⟨program, cls, memory, none, finished⟩)
  | some b =>
    match action b memory with
    | (.ok (), b, memory) => (.ok (), ⟨program, cls, memory, some b, finished⟩)
    | (.error e, b, memory) => (.error (.failed e), ⟨program, cls, memory, some b, finished⟩)

/-- Pushes frames of a method of the class. -/
def push (w : Workbench) (method : String) (bci : Int) (repeats : Nat) :
    Except StepError Unit × Workbench :=
  if w.builder.isNone then (.error (.misuse .noOpenBuilder), w)
  else
    match (w.program.get? w.cls).bind fun c => (c.findMethod method).map (c, ·) with
    | none => (.error (.misuse .noSuchMethod), w)
    | some (c, m) => w.withBuilder fun b memory => pushMany c m bci b memory repeats

/-- Goes on in a further chunk with `Builder.expand`. -/
def expand (w : Workbench) : Except StepError Unit × Workbench := w.withBuilder Builder.expand

/-- Marks that the innermost frame was hidden with `Builder.markHiddenTop`. -/
def markHiddenTop (w : Workbench) : Except StepError Unit × Workbench :=
  w.withBuilder Builder.markHiddenTop

/-- Finishes the store with `Builder.finish` and keeps it under a name; reports its depth. -/
def finish (w : Workbench) (name : String) : Except StepError Nat × Workbench :=
  match w.builder with
  | none => (.error (.misuse .noOpenBuilder), w)
  | some b =>
    let (store, memory) := b.finish w.memory
    let w := { w with builder := none, memory }.dropStore name
    (.ok b.depth, { w with finished := w.finished.insert name store })

/-- Takes a finished store and fills it again by `Builder.reopen`.  A builder that was open is
    dropped. -/
def reopen (w : Workbench) (name : String) : Except StepError Unit × Workbench :=
  match w.finished.get? name with
  | none => (.error (.misuse .noSuchStore), w)
  | some s =>
    let (b, memory) := Builder.reopen s w.memory
    let w := { w with memory, finished := w.finished.erase name }.dropBuilder
    (.ok (), { w with builder := some b })

/-- Redefines the class with `Program.redefineClass`; reports the new generation. -/
def redefine (w : Workbench) (methods : List MethodSpec) (sourceFile : Option String) :
    Except StepError Nat × Workbench :=
  match w.program.redefineClass w.cls methods sourceFile with
  | (.error v, program) => (.error (.failed (.violation v)), { w with program })
  | (.ok generation, program) => (.ok generation, { w with program })

/-- Drops the previous versions of the class with `Program.purge`. -/
def purge (w : Workbench) : Workbench := { w with program := w.program.purge w.cls }

/-- Allocates and gives back at once; reports the bytes charged in between. -/
def allocate (w : Workbench) (bytes : Nat) : Except StepError Nat × Workbench :=
  match w.memory.allocate bytes with
  | (.error (.error e), memory) => (.error (.noRoom e), { w with memory })
  | (.error (.violation v), memory) => (.error (.failed (.violation v)), { w with memory })
  | (.ok r, memory) => (.ok r.bytes, { w with memory := memory.release r })

/-- The store of a name, or the one under construction. -/
def inspect (w : Workbench) : Option String → Except StepError Store
  | some name =>
    match w.finished.get? name with
    | some s => .ok s
    | none => .error (.misuse .noSuchStore)
  | none =>
    match w.builder with
    | some b => .ok b.store
    | none => .error (.misuse .noOpenBuilder)

end Workbench

end StackTrace
