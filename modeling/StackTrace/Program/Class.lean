import StackTrace.Program.Method
import StackTrace.Violation

/-!
# Classes and their versions

A class starts at generation 0.  Redefining it puts a new version in force, one generation higher,
and keeps the old one until the previous versions are purged.

Ordinals are given out in order and never twice: a method of a new version takes the ordinal of the
method with the same name and signature in the version before it, if there is one, and the next
unused ordinal otherwise.  There are 65535 of them; a class that needs more breaks its promise.
-/

namespace StackTrace

/-- The module that a class belongs to. -/
structure NamedModule where
  name : Symbol
  version : Option Symbol
  deriving DecidableEq, Repr

/-- One generation of the code of a class. -/
structure ClassVersion where
  /-- How often the class was redefined before, as an exact number.  It is meant to fit in 32 bits, and
      classes that are redefined more often are outside of what is modelled here. -/
  generation : Nat
  sourceFile : Option Symbol
  methods : Array Method
  deriving Repr

namespace ClassVersion

/-- The first of the `methods` with a given ordinal. -/
def withOrdinal (v : ClassVersion) (ordinal : Nat) : Option Method :=
  v.methods.find? (·.ordinal == ordinal)

/-- The ordinals of a version by name and signature; of two equal descriptions the later counts. -/
def ordinals (v : ClassVersion) : Std.HashMap (String × String) Nat :=
  v.methods.foldl (fun known m => known.insert (m.name.text, m.signature.text) m.ordinal) ∅

end ClassVersion

/-- A class as it is defined. -/
structure ClassDefinition where
  name : String
  super : Option ClassId := none
  loader : Option String := none
  /-- The name and version of the module of the class. -/
  inModule : Option (String × Option String) := none
  sourceFile : Option String := none
  methods : List MethodSpec := []

/-- A loaded class. -/
structure Class where
  id : ClassId
  /-- The internal name, such as `com/acme/Widget`. -/
  name : Symbol
  super : Option ClassId
  loader : Option Symbol
  inModule : Option NamedModule
  current : ClassVersion
  /-- The versions kept from before, latest first. -/
  previous : List ClassVersion
  nextOrdinal : Nat
  deriving Repr

/-- The ordinal for place `index`, if there are that many. -/
def ordinalAt (index : Nat) : Except Violation Nat :=
  if index ≤ 65535 then .ok index else .error .tooManyMethods

/-- Makes the `Method` of a spec. -/
def MethodSpec.load (spec : MethodSpec) (holder : ClassId) (generation place ordinal : Nat)
    (symbols : SymbolTable) : Method × SymbolTable :=
  let (name, symbols) := symbols.intern spec.name
  let (signature, symbols) := symbols.intern spec.signature
  let codeSize := if spec.flags.native then 0 else spec.codeSize
  ({ holder, generation, place, ordinal, name, signature, flags := spec.flags, codeSize,
     lines := spec.lines }, symbols)

namespace Class

/-- Makes the methods of a first version, which are numbered in order after `loaded`. -/
def loadFirst (holder : ClassId) (loaded : Array Method) (symbols : SymbolTable) :
    List MethodSpec → Except Violation (Array Method) × SymbolTable
  | [] => (.ok loaded, symbols)
  | spec :: specs =>
    match ordinalAt loaded.size with
    | .error v => (.error v, symbols)
    | .ok ordinal =>
      let (m, symbols) := spec.load holder 0 loaded.size ordinal symbols
      loadFirst holder (loaded.push m) symbols specs

/-- Loads a class, at generation 0, with the methods that `loadFirst` makes. -/
def define (d : ClassDefinition) (id : ClassId) (symbols : SymbolTable) :
    Except Violation Class × SymbolTable :=
  match loadFirst id #[] symbols d.methods with
  | (.error v, symbols) => (.error v, symbols)
  | (.ok methods, symbols) =>
    match ordinalAt methods.size with
    | .error v => (.error v, symbols)
    | .ok nextOrdinal =>
      let (name, symbols) := symbols.intern d.name
      let (loader, symbols) := symbols.intern? d.loader
      let (moduleName, symbols) := symbols.intern? (d.inModule.map Prod.fst)
      let (moduleVersion, symbols) := symbols.intern? (d.inModule.bind Prod.snd)
      let (sourceFile, symbols) := symbols.intern? d.sourceFile
      (.ok
        { id, name, super := d.super, loader
          inModule := moduleName.map fun name => ⟨name, moduleVersion⟩
          current := ⟨0, sourceFile, methods⟩
          previous := [], nextOrdinal }, symbols)

/-- Makes the methods of a later version.  `known` are the ordinals of the version before it, `next`
    is the next unused one; the result carries the next unused one after it. -/
def loadLater (holder : ClassId) (generation : Nat) (known : Std.HashMap (String × String) Nat)
    (loaded : Array Method) (next : Nat) (symbols : SymbolTable) :
    List MethodSpec → Except Violation (Array Method × Nat) × SymbolTable
  | [] => (.ok (loaded, next), symbols)
  | spec :: specs =>
    match known[(spec.name, spec.signature)]? with
    | some ordinal =>
      let (m, symbols) := spec.load holder generation loaded.size ordinal symbols
      loadLater holder generation known (loaded.push m) next symbols specs
    | none =>
      match ordinalAt (next + 1) with
      | .error v => (.error v, symbols)
      | .ok after =>
        let (m, symbols) := spec.load holder generation loaded.size next symbols
        loadLater holder generation known (loaded.push m) after symbols specs

/-- Puts a new version in force and keeps the `current` one as the first of `previous`.  When the
    ordinals run out the class stays as it was. -/
def redefine (c : Class) (methods : List MethodSpec) (sourceFile : Option String)
    (symbols : SymbolTable) : Except Violation Class × SymbolTable :=
  let generation := c.current.generation + 1
  match loadLater c.id generation c.current.ordinals #[] c.nextOrdinal symbols methods with
  | (.error v, symbols) => (.error v, symbols)
  | (.ok (methods, nextOrdinal), symbols) =>
    let (sourceFile, symbols) := symbols.intern? sourceFile
    (.ok
      { c with
        current := ⟨generation, sourceFile, methods⟩
        previous := c.current :: c.previous
        nextOrdinal }, symbols)

/-- Drops all `previous` versions, so that the one in force is the only one. -/
def purge (c : Class) : Class := { c with previous := [] }

/-- The generation of the `current` version. -/
def generation (c : Class) : Nat := c.current.generation

/-- The external name, such as `com.acme.Widget`. -/
def externalName (c : Class) : String :=
  c.name.text.map fun ch => if ch = '/' then '.' else ch

/-- The version with a given generation, as long as it is kept. -/
def version (c : Class) (generation : Nat) : Option ClassVersion :=
  (c.current :: c.previous).find? (·.generation == generation)

/-- The method that a stored ordinal and generation name, by `version` and `withOrdinal`. -/
def methodWithOrdinal (c : Class) (ordinal generation : Nat) : Option Method :=
  (c.version generation).bind (·.withOrdinal ordinal)

/-- The first method of the `current` version that has a given name. -/
def findMethod (c : Class) (name : String) : Option Method :=
  c.current.methods.find? (·.name.text == name)

/-- The source file, which is only trusted for the generation of the `current` version. -/
def sourceFileFor (c : Class) (generation : Nat) : Option Symbol :=
  if c.current.generation == generation then c.current.sourceFile else none

end Class

end StackTrace
