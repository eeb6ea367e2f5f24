import StackTrace.Program.Class
import StackTrace.Table

/-!
# The loaded program

A program holds every class that was ever defined, and the registry: which class each name stands
for.  Unloading a name only takes it out of the registry.  Names are free again after that, so
several classes of a program may have the same one.

`ancestors` is the chain of superclasses of a class, itself first.  A superclass exists before its
subclasses do, so its number is smaller and the chain ends.
-/

namespace StackTrace

/-- Why the registry turned a request down. -/
inductive RegistryError where
  | duplicateClass (name : String)
  | unknownClass (name : String)
  | codeTooLarge (cls method : String) (codeSize : Nat)
  deriving DecidableEq, Repr

/-- The wording of a refusal. -/
def RegistryError.message : RegistryError → String
  | duplicateClass name => s!"class {name} is already defined"
  | unknownClass name => s!"class {name} is not loaded"
  | codeTooLarge cls method codeSize =>
    s!"method {cls}.{method} has {codeSize} bytes of code, limit is 65536"

/-- All classes, their names, and the symbols they are made of. -/
structure Program where
  symbols : SymbolTable
  /-- Every class ever defined; `ClassId` is the index. -/
  classes : Array Class
  /-- The registry. -/
  loaded : Table ClassId

namespace Program

/-- No classes. -/
def empty : Program := ⟨SymbolTable.empty, #[], Table.empty⟩

/-- The class with a given `ClassId`. -/
def get? (p : Program) (id : ClassId) : Option Class := p.classes[id.index]?

/-- The class that a name stands for among the `loaded`. -/
def lookup (p : Program) (name : String) : Option ClassId := p.loaded.get? name

/-- The number of loaded classes. -/
def loadedCount (p : Program) : Nat := p.loaded.size

/-- Defines a class with `Class.define`, outside the registry. -/
def defineUnregistered (p : Program) (d : ClassDefinition) : Except Violation ClassId × Program :=
  let ⟨symbols, classes, loaded⟩ := p
  let id : ClassId := ⟨classes.size⟩
  match Class.define d id symbols with
  | (.error v, symbols) => (.error v, ⟨symbols, classes, loaded⟩)
  | (.ok c, symbols) => (.ok id, ⟨symbols, classes.push c, loaded⟩)

/-- Registers a class under a name among the `loaded`, in place of any class of that name. -/
def register (p : Program) (name : String) (id : ClassId) : Program :=
  { p with loaded := p.loaded.insert name id }

/-- Redefines a class with `Class.redefine` and says which generation is now in force. -/
def redefineClass (p : Program) (id : ClassId) (methods : List MethodSpec)
    (sourceFile : Option String) : Except Violation Nat × Program :=
  let ⟨symbols, classes, loaded⟩ := p
  match classes[id.index]? with
  | none => (.ok 0, ⟨symbols, classes, loaded⟩)
  | some c =>
    match c.redefine methods sourceFile symbols with
    | (.error v, symbols) => (.error v, ⟨symbols, classes, loaded⟩)
    | (.ok c, symbols) => (.ok c.generation, ⟨symbols, classes.setIfInBounds id.index c, loaded⟩)

/-- Drops the previous versions of a class with `Class.purge`. -/
def purge (p : Program) (id : ClassId) : Program :=
  match p.get? id with
  | none => p
  | some c => { p with classes := p.classes.setIfInBounds id.index c.purge }

/-- The first method whose code is larger than `maxCodeSize` and so is not accepted by the registry. -/
def oversized (methods : List MethodSpec) : Option MethodSpec :=
  methods.find? fun spec => !spec.flags.native && spec.codeSize > maxCodeSize

/-- Defines a class and registers it.  A rejected definition changes nothing; of two reasons to reject
    one, `oversized` code is reported first. -/
def define (p : Program) (d : ClassDefinition) :
    Except (Failure RegistryError) ClassId × Program :=
  match oversized d.methods with
  | some spec => (.error (.error (.codeTooLarge d.name spec.name spec.codeSize)), p)
  | none =>
    if p.loaded.contains d.name then (.error (.error (.duplicateClass d.name)), p)
    else
      match p.defineUnregistered d with
      | (.error v, p) => (.error (.violation v), p)
      | (.ok id, p) => (.ok id, p.register d.name id)

/-- Redefines the class that `lookup` finds under a name; reports the new generation. -/
def redefine (p : Program) (name : String) (methods : List MethodSpec)
    (sourceFile : Option String) : Except (Failure RegistryError) Nat × Program :=
  match p.lookup name with
  | none => (.error (.error (.unknownClass name)), p)
  | some id =>
    match oversized methods with
    | some spec => (.error (.error (.codeTooLarge name spec.name spec.codeSize)), p)
    | none =>
      match p.redefineClass id methods sourceFile with
      | (.error v, p) => (.error (.violation v), p)
      | (.ok generation, p) => (.ok generation, p)

/-- Takes a name out of the `loaded` and says which class it stood for. -/
def unload (p : Program) (name : String) : Except RegistryError ClassId × Program :=
  match p.lookup name with
  | none => (.error (.unknownClass name), p)
  | some id => (.ok id, { p with loaded := p.loaded.erase name })

/-- A class followed by its superclasses, nearest first; `super` is always an older class. -/
def ancestors (p : Program) (id : ClassId) : List ClassId :=
  match (p.get? id).bind (·.super) with
  | none => [id]
  | some s => if s.index < id.index then id :: p.ancestors s else [id]
termination_by id.index

/-- Whether a class is `other` or a subclass of it. -/
def isSubclass (p : Program) (id other : ClassId) : Bool := (p.ancestors id).contains other

end Program

end StackTrace
