import StackTrace.Machine.Basic

/-!
# Classes, methods and code of a machine

Requests that define, redefine, unload and pin classes, hold methods, and compile code.
-/

namespace StackTrace.Machine

/-- A class as a request defines it; `define` makes a `ClassDefinition` of it. -/
structure DefineRequest where
  name : String
  super : Option ClassRef := none
  loader : Option String := none
  inModule : Option (String × Option String) := none
  sourceFile : Option String := none
  methods : List MethodSpec := []

/-- Resolves the superclass, then defines the class and registers it with `Program.define`. -/
def define (m : Machine) (r : DefineRequest) : Except RequestError Class × Machine :=
  let super : Except RequestError (Option ClassId) :=
    match r.super with
    | none => .ok none
    | some ref => (m.resolveClass ref).map fun c => some c.id
  match super with
  | .error e => (.error e, m)
  | .ok super =>
    let d : ClassDefinition :=
      { name := r.name, super, loader := r.loader, inModule := r.inModule,
        sourceFile := r.sourceFile, methods := r.methods }
    match m.program.define d with
    | (.error e, p) => (.error (.ofFailure .registry e), m.setProgram p)
    | (.ok id, p) =>
      let m := m.setProgram p
      match p.get? id with
      | some c => (.ok c, m)
      | none => (.error (.noClass (.loaded r.name)), m)

/-- Redefines a class once: a loaded one by way of `Program.redefine`, a pinned one directly. -/
def redefineOnce (p : Program) (pins : Table ClassId) (ref : ClassRef) (methods : List MethodSpec)
    (sourceFile : Option String) : Except RequestError Nat × Program :=
  match ref with
  | .loaded name =>
    match p.redefine name methods sourceFile with
    | (.error e, p) => (.error (.ofFailure .registry e), p)
    | (.ok generation, p) => (.ok generation, p)
  | .pinned name =>
    match pins.get? name with
    | none => (.error (.noClass ref), p)
    | some id =>
      match p.redefineClass id methods sourceFile with
      | (.error v, p) => (.error (.violation v), p)
      | (.ok generation, p) => (.ok generation, p)

/-- Drops the previous versions of the class that a reference names, with `Program.purge`. -/
def purgeRef (p : Program) (pins : Table ClassId) (ref : ClassRef) :
    Except RequestError Unit × Program :=
  let id := match ref with
    | .loaded name => p.lookup name
    | .pinned name => pins.get? name
  match id with
  | none => (.error (.noClass ref), p)
  | some id => (.ok (), p.purge id)

/-- Redefines a class with `redefineOnce` and drops its previous versions with `purgeRef`.  They are
    dropped also when the class stays as it is; that there is no class to drop them from outweighs why
    it was not redefined. -/
def redefineAndPurge (p : Program) (pins : Table ClassId) (ref : ClassRef)
    (methods : List MethodSpec) (sourceFile : Option String) : Except RequestError Nat × Program :=
  match redefineOnce p pins ref methods sourceFile with
  | (.error (.violation v), p) => (.error (.violation v), p)
  | (result, p) =>
    match purgeRef p pins ref with
    | (.error e, p) => (.error e, p)
    | (.ok (), p) => (result, p)

/-- Redefines a class `times` times, up to the first failure; `last` is the answer so far.  With
    `purge`, the previous versions are dropped each time. -/
def redefineMany (p : Program) (pins : Table ClassId) (ref : ClassRef) (methods : List MethodSpec)
    (sourceFile : Option String) (purge : Bool) (last : Option Nat) :
    (times : Nat) → Except RequestError (Option Nat) × Program
  | 0 => (.ok last, p)
  | times + 1 =>
    let round := if purge then redefineAndPurge p pins ref methods sourceFile
      else redefineOnce p pins ref methods sourceFile
    match round with
    | (.error e, p) => (.error e, p)
    | (.ok generation, p) =>
      redefineMany p pins ref methods sourceFile purge (some generation) times

/-- Redefines a class a number of times, each as in `redefineOnce` or, to purge, `redefineAndPurge`;
    reports the last new generation, if there is one. -/
def redefine (m : Machine) (ref : ClassRef) (methods : List MethodSpec)
    (sourceFile : Option String) (purge : Bool) (times : Nat) :
    Except RequestError (Option Nat) × Machine :=
  let ⟨u, threads, throwables, code, held, pins, holdings⟩ := m
  let ⟨config, memory, names, program, throwableClass, outOfMemoryClass, pool⟩ := u
  let (result, program) := redefineMany program pins ref methods sourceFile purge none times
  (result,
    ⟨⟨config, memory, names, program, throwableClass, outOfMemoryClass, pool⟩,
      threads, throwables, code, held, pins, holdings⟩)

/-- Drops the previous versions of a class with `Program.purge`; reports how many are left. -/
def purge (m : Machine) (ref : ClassRef) : Except RequestError Nat × Machine :=
  match m.resolveClass ref with
  | .error e => (.error e, m)
  | .ok c =>
    let m := m.setProgram (m.program.purge c.id)
    (.ok (((m.program.get? c.id).map (·.previous.length)).getD 0), m)

/-- Takes a class out of the registry with `Program.unload`; pins and traces may still own it. -/
def unload (m : Machine) (name : String) : Except RequestError Class × Machine :=
  match m.program.unload name with
  | (.error e, p) => (.error (.registry e), m.setProgram p)
  | (.ok id, p) =>
    let m := m.setProgram p
    match p.get? id with
    | some c => (.ok c, m)
    | none => (.error (.noClass (.loaded name)), m)

/-- Pins a class under a name, which makes it one of the `owners`. -/
def pin (m : Machine) (ref : ClassRef) (name : String) : Except RequestError Unit × Machine :=
  match m.resolveClass ref with
  | .error e => (.error e, m)
  | .ok c => (.ok (), { m with pins := m.pins.insert name c.id })

/-- Lets go of a class that was pinned with `pin`; reports whether there was one. -/
def unpin (m : Machine) (name : String) : Bool × Machine :=
  (m.pins.contains name, { m with pins := m.pins.erase name })

/-- Holds a method under a name. -/
def holdMethod (m : Machine) (ref : MethodRef) (name : String) :
    Except RequestError Method × Machine :=
  match m.resolveMethod ref with
  | .error e => (.error e, m)
  | .ok method => (.ok method, { m with methods := m.methods.insert name method })

/-- Whether the method that a reference names is what frames of each of some class versions were
    recorded from, by `versionMatches`.  Where no method is named, there is none that could be. -/
def versionsMatched (m : Machine) (ref : Option MethodRef) (versions : List Nat) :
    Except RequestError (List Bool) := do
  match ref with
  | none => return versions.map fun _ => false
  | some ref =>
    let method ← m.resolveMethod ref
    return versions.map (versionMatches method.generation)

/-- A `CallSite` as a request describes it: the code offset, and the methods active there, outermost
    first. -/
structure SiteRequest where
  pc : Nat
  active : List (MethodRef × Int)

/-- The methods of a call site, each by `resolveMethod`. -/
def resolveActive (m : Machine) (active : List (MethodRef × Int)) :
    Except RequestError (List (Method × Int)) :=
  active.mapM fun (ref, bci) => do return (← m.resolveMethod ref, bci)

/-- Compiles a method, with `CompiledCode.ofCallSites` or as the `CompiledCode.wrapper` of a native
    method. -/
def compile (m : Machine) (name : String) (method : MethodRef)
    (sites : Option (List SiteRequest)) : Except RequestError CompiledCode × Machine :=
  let code : Except RequestError CompiledCode := do
    let method ← m.resolveMethod method
    match sites with
    | none => return CompiledCode.wrapper method
    | some sites =>
      let sites ← sites.mapM fun s => do return (⟨s.pc, ← m.resolveActive s.active⟩ : CallSite)
      return CompiledCode.ofCallSites method sites
  match code with
  | .error e => (.error e, m)
  | .ok code => (.ok code, { m with code := m.code.insert name code })

/-- Whether a class is another or a subclass of it, by `Program.isSubclass`. -/
def isSubclass (m : Machine) (ref other : ClassRef) : Except RequestError Bool := do
  let c ← m.resolveClass ref
  let other ← m.resolveClass other
  return m.program.isSubclass c.id other.id

/-- What a `FrameFilter` for throwables of a class decides about methods one after the other. -/
def filterDecisions (m : Machine) (cls : ClassRef) (methods : List MethodRef)
    (showHidden : Bool) : Except RequestError (List FilterDecision) := do
  let c ← m.resolveClass cls
  let methods ← methods.mapM m.resolveMethod
  let policy : FilterPolicy :=
    { program := m.program, names := m.world.names, alive := m.owned.contains, throwableClass := c.id,
      showHidden }
  return FrameFilter.start.decideAll policy methods

end StackTrace.Machine
