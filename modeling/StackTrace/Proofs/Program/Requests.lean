import StackTrace.Proofs.Program.Growth
import StackTrace.Proofs.Program.Numbering
import StackTrace.Proofs.Program.Symbols

/-!
# How the registry serves requests

Classes are defined, redefined and unloaded by name.  A request can be turned down for a listed reason;
then nothing is changed.  It can also run out of ordinals, which leaves all classes and names but
may leave new symbols behind.  Otherwise it succeeds.

`Program.Served` lists the ways in which a request can end, and what it leaves in each.

## Key results

- `Program.served_serve`: a request ends in one of these ways
- `Program.serve_of_rejects`: a reason to turn a request down does so
- `Program.Served.exists_answer`: without such a reason, and with enough ordinals, it succeeds
-/

namespace StackTrace

/-- What the registry can be asked for: `Program.define`, `Program.redefine` or `Program.unload`. -/
inductive RegistryRequest where
  | define (d : ClassDefinition)
  | redefine (name : String) (methods : List MethodSpec) (sourceFile : Option String)
  | unload (name : String)

/-- What a request that succeeds is answered with. -/
inductive RegistryAnswer where
  | defined (id : ClassId)
  | redefined (generation : Nat)
  | unloaded (id : ClassId)

/-- A request and how it ended. -/
structure RegistryEvent where
  request : RegistryRequest
  outcome : Except (Failure RegistryError) RegistryAnswer

/-! ## Why a request is turned down -/

/-- Managed code that is larger than `maxCodeSize`. -/
def MethodSpec.Oversized (spec : MethodSpec) : Prop :=
  spec.flags.native = false ∧ maxCodeSize < spec.codeSize

/-- The first of the listed methods that is `Oversized`. -/
def FirstOversized (methods : List MethodSpec) (spec : MethodSpec) : Prop :=
  spec.Oversized ∧ ∃ before after, methods = before ++ spec :: after ∧
    ∀ other ∈ before, ¬other.Oversized

/-- `MethodSpec.Oversized` is what the registry tests. -/
private theorem MethodSpec.oversized_iff {spec : MethodSpec} :
    (!spec.flags.native && decide (spec.codeSize > maxCodeSize)) = true ↔ spec.Oversized := by
  simp [Oversized]

namespace Program

/-- `Program.oversized` finds the first method that is too large. -/
private theorem oversized_eq_some {methods : List MethodSpec} {spec : MethodSpec} :
    oversized methods = some spec ↔ FirstOversized methods spec := by
  simp only [oversized, List.find?_eq_some_iff_append, MethodSpec.oversized_iff, FirstOversized,
    Bool.not_eq_true', ← Bool.not_eq_true]

/-- `Program.oversized` finds nothing if no method is too large. -/
theorem oversized_eq_none {methods : List MethodSpec} :
    oversized methods = none ↔ ∀ spec ∈ methods, ¬spec.Oversized := by
  simp only [oversized, List.find?_eq_none, MethodSpec.oversized_iff]

/-- The registry turns a request down with an error.  Where there are two reasons, a definition reports
    code that is too large before a name that is taken, and a redefinition a name that stands for
    nothing before code that is too large. -/
inductive Rejects (p : Program) : RegistryRequest → RegistryError → Prop
  | oversizedDefinition {d : ClassDefinition} {spec : MethodSpec}
      (hsize : FirstOversized d.methods spec) :
      p.Rejects (.define d) (.codeTooLarge d.name spec.name spec.codeSize)
  | duplicate {d : ClassDefinition} {id : ClassId} (hsize : ∀ spec ∈ d.methods, ¬spec.Oversized)
      (hnamed : p.lookup d.name = some id) : p.Rejects (.define d) (.duplicateClass d.name)
  | unknown {name : String} {methods : List MethodSpec} {sourceFile : Option String}
      (hnamed : p.lookup name = none) :
      p.Rejects (.redefine name methods sourceFile) (.unknownClass name)
  | oversizedRedefinition {name : String} {methods : List MethodSpec} {sourceFile : Option String}
      {id : ClassId} {spec : MethodSpec} (hnamed : p.lookup name = some id)
      (hsize : FirstOversized methods spec) :
      p.Rejects (.redefine name methods sourceFile) (.codeTooLarge name spec.name spec.codeSize)
  | notLoaded {name : String} (hnamed : p.lookup name = none) :
      p.Rejects (.unload name) (.unknownClass name)

/-- There are ordinals for all methods that the request asks for (`ClassVersion.added`). -/
def HasRoom (p : Program) : RegistryRequest → Prop
  | .define d => d.methods.length ≤ 65535
  | .redefine name methods _ => ∀ id c, p.lookup name = some id → p.get? id = some c →
      c.nextOrdinal + c.current.added methods ≤ 65535
  | .unload _ => True

/-! ## How requests end -/

/-- Carries out a request. -/
def serve (p : Program) : RegistryRequest → Except (Failure RegistryError) RegistryAnswer × Program
  | .define d =>
    let (r, p) := p.define d
    (r.map .defined, p)
  | .redefine name methods sourceFile =>
    let (r, p) := p.redefine name methods sourceFile
    (r.map .redefined, p)
  | .unload name =>
    let (r, p) := p.unload name
    ((r.mapError .error).map .unloaded, p)

/-- Carries out requests in order by `Program.serve`; one that fails is no reason to stop. -/
def serveAll (p : Program) : List RegistryRequest → List RegistryEvent × Program
  | [] => ([], p)
  | request :: requests =>
    let (outcome, p) := p.serve request
    let (events, p) := p.serveAll requests
    (⟨request, outcome⟩ :: events, p)

/-- The ways in which `Program.serve` can end, and what it leaves. -/
inductive Served (p : Program) :
    RegistryRequest → Except (Failure RegistryError) RegistryAnswer → Program → Prop
  | rejected {request : RegistryRequest} {e : RegistryError} (h : p.Rejects request e) :
      p.Served request (.error (.error e)) p
  /-- There are too many methods. -/
  | definitionStopped {d : ClassDefinition} {v : Violation} {symbols : SymbolTable}
      (hsize : ∀ spec ∈ d.methods, ¬spec.Oversized) (hfree : p.lookup d.name = none)
      (h : Class.define d ⟨p.classes.size⟩ p.symbols = (.error v, symbols)) :
      p.Served (.define d) (.error (.violation v)) { p with symbols }
  | defined {d : ClassDefinition} {c : Class} {symbols : SymbolTable}
      (hsize : ∀ spec ∈ d.methods, ¬spec.Oversized) (hfree : p.lookup d.name = none)
      (h : Class.define d ⟨p.classes.size⟩ p.symbols = (.ok c, symbols)) :
      p.Served (.define d) (.ok (.defined ⟨p.classes.size⟩))
        ⟨symbols, p.classes.push c, p.loaded.insert d.name ⟨p.classes.size⟩⟩
  /-- There are not enough ordinals left. -/
  | redefinitionStopped {name : String} {methods : List MethodSpec} {sourceFile : Option String}
      {id : ClassId} {c : Class} {v : Violation} {symbols : SymbolTable}
      (hnamed : p.lookup name = some id) (hsize : ∀ spec ∈ methods, ¬spec.Oversized)
      (hget : p.get? id = some c) (h : c.redefine methods sourceFile p.symbols = (.error v, symbols)) :
      p.Served (.redefine name methods sourceFile) (.error (.violation v)) { p with symbols }
  | redefined {name : String} {methods : List MethodSpec} {sourceFile : Option String}
      {id : ClassId} {c c' : Class} {symbols : SymbolTable}
      (hnamed : p.lookup name = some id) (hsize : ∀ spec ∈ methods, ¬spec.Oversized)
      (hget : p.get? id = some c) (h : c.redefine methods sourceFile p.symbols = (.ok c', symbols)) :
      p.Served (.redefine name methods sourceFile) (.ok (.redefined c'.generation))
        ⟨symbols, p.classes.setIfInBounds id.index c', p.loaded⟩
  | unloaded {name : String} {id : ClassId} (hnamed : p.lookup name = some id) :
      p.Served (.unload name) (.ok (.unloaded id)) { p with loaded := p.loaded.erase name }

variable {p p' p₀ : Program} {request : RegistryRequest}
  {outcome : Except (Failure RegistryError) RegistryAnswer}

/-- `Program.Valid` has a class for every name. -/
theorem Valid.exists_of_lookup (hp : p.Valid) {name : String} {id : ClassId}
    (h : p.lookup name = some id) : ∃ c, p.get? id = some c :=
  ⟨_, Array.getElem?_eq_getElem (hp.loaded_lt id (Table.mem_values_of_get? h))⟩

/-- `Program.define` ends in one of the ways of `Served`. -/
theorem served_define {d : ClassDefinition} {r : Except (Failure RegistryError) ClassId}
    (h : p.define d = (r, p')) : p.Served (.define d) (r.map .defined) p' := by
  unfold define at h
  split at h
  -- In the order of the checks: the sizes, the name, and then the ordinals
  · rename_i hsize
    cases h
    exact .rejected (.oversizedDefinition (oversized_eq_some.mp hsize))
  · rename_i hsize
    split at h
    · rename_i hbound
      obtain ⟨id, hnamed⟩ := Option.isSome_iff_exists.mp hbound
      cases h
      exact .rejected (.duplicate (oversized_eq_none.mp hsize) hnamed)
    · rename_i hfree
      have hsize := oversized_eq_none.mp hsize
      have hfree : p.lookup d.name = none := Option.not_isSome_iff_eq_none.mp hfree
      -- The class is made before it is registered
      unfold defineUnregistered at h
      dsimp only at h
      cases hmade : Class.define d ⟨p.classes.size⟩ p.symbols with
      | mk made symbols =>
        rw [hmade] at h
        cases made with
        | error v =>
          cases h
          exact .definitionStopped hsize hfree hmade
        | ok c =>
          cases h
          exact .defined hsize hfree hmade

/-- `Program.redefine` ends in one of the ways of `Served`. -/
private theorem served_redefine (hp : p.Valid) {name : String} {methods : List MethodSpec}
    {sourceFile : Option String} {r : Except (Failure RegistryError) Nat}
    (h : p.redefine name methods sourceFile = (r, p')) :
    p.Served (.redefine name methods sourceFile) (r.map .redefined) p' := by
  unfold redefine at h
  split at h
  · rename_i hnamed
    cases h
    exact .rejected (.unknown hnamed)
  · rename_i id hnamed
    split at h
    · rename_i hsize
      cases h
      exact .rejected (.oversizedRedefinition hnamed (oversized_eq_some.mp hsize))
    · rename_i hsize
      have hsize := oversized_eq_none.mp hsize
      -- A name stands for a class that is there
      obtain ⟨c, hget⟩ := hp.exists_of_lookup hnamed
      unfold redefineClass at h
      dsimp only at h
      rw [show p.classes[id.index]? = some c from hget] at h
      cases hmade : c.redefine methods sourceFile p.symbols with
      | mk made symbols =>
        simp only [hmade] at h
        cases made with
        | error v =>
          cases h
          exact .redefinitionStopped hnamed hsize hget hmade
        | ok c' =>
          cases h
          exact .redefined hnamed hsize hget hmade

/-- `Program.unload` ends in one of the ways of `Served`. -/
private theorem served_unload {name : String} {r : Except RegistryError ClassId}
    (h : p.unload name = (r, p')) :
    p.Served (.unload name) ((r.mapError .error).map .unloaded) p' := by
  unfold unload at h
  split at h
  · rename_i hnamed
    cases h
    exact .rejected (.notLoaded hnamed)
  · rename_i id hnamed
    cases h
    exact .unloaded hnamed

/-- `Program.serve` ends in one of the ways of `Served`. -/
theorem served_serve (hp : p.Valid) (h : p.serve request = (outcome, p')) :
    p.Served request outcome p' := by
  cases request with
  | define d =>
    cases h
    exact served_define rfl
  | redefine name methods sourceFile =>
    cases h
    exact served_redefine hp rfl
  | unload name =>
    cases h
    exact served_unload rfl

/-- `Program.serve` turns a request down for which there is a reason, and changes nothing. -/
theorem serve_of_rejects {e : RegistryError} (h : p.Rejects request e) :
    p.serve request = (.error (.error e), p) := by
  cases h with
  | oversizedDefinition hsize =>
    simp only [serve, define, oversized_eq_some.mpr hsize, Except.map]
  | duplicate hsize hnamed =>
    have hbound : p.loaded.contains _ = true := Option.isSome_iff_exists.mpr ⟨_, hnamed⟩
    simp only [serve, define, oversized_eq_none.mpr hsize, hbound, if_true, Except.map]
  | unknown hnamed => simp only [serve, redefine, hnamed, Except.map]
  | oversizedRedefinition hnamed hsize =>
    simp only [serve, redefine, hnamed, oversized_eq_some.mpr hsize, Except.map]
  | notLoaded hnamed => simp only [serve, unload, hnamed, Except.map, Except.mapError]

/-- `Program.serve` gives the reason as its outcome. -/
theorem eq_of_rejects (hserve : p.serve request = (outcome, p')) {e : RegistryError}
    (h : p.Rejects request e) : outcome = .error (.error e) ∧ p' = p := by
  rw [serve_of_rejects h] at hserve
  cases hserve
  exact ⟨rfl, rfl⟩

/-- `Served` with an answer is a request that is not turned down and has room. -/
theorem Served.exists_answer (h : p.Served request outcome p') (hroom : p.HasRoom request)
    (hnot : ∀ e, ¬p.Rejects request e) : ∃ answer, outcome = .ok answer := by
  cases h with
  | rejected h => exact absurd h (hnot _)
  | definitionStopped _ _ h =>
    obtain ⟨c, symbols, hmade, -⟩ := Class.define_of_room hroom ⟨p.classes.size⟩ p.symbols
    exact nomatch h.symm.trans hmade
  | redefinitionStopped hnamed _ hget h =>
    obtain ⟨c', symbols, hmade, -⟩ :=
      Class.redefine_of_room _ _ _ p.symbols (hroom _ _ hnamed hget)
    exact nomatch h.symm.trans hmade
  | defined => exact ⟨_, rfl⟩
  | redefined => exact ⟨_, rfl⟩
  | unloaded => exact ⟨_, rfl⟩

/-- `Served` takes no symbol away. -/
theorem Served.grows_symbols (h : p.Served request outcome p') : p.symbols.Grows p'.symbols := by
  cases h with
  | rejected => exact .refl _
  | definitionStopped _ _ h => exact Class.grows_define h
  | defined _ _ h => exact Class.grows_define h
  | redefinitionStopped _ _ _ h => exact Class.grows_redefine h
  | redefined _ _ _ h => exact Class.grows_redefine h
  | unloaded => exact .refl _

/-- `Program.serveAll` serves the first request and then the others. -/
theorem serveAll_cons {requests : List RegistryRequest} {events : List RegistryEvent}
    (h : p₀.serveAll (request :: requests) = (events, p)) :
    ∃ outcome p₁ later, p₀.serve request = (outcome, p₁) ∧ p₁.serveAll requests = (later, p) ∧
      events = ⟨request, outcome⟩ :: later := by
  cases h
  exact ⟨_, _, _, rfl, rfl, rfl⟩

/-- `Program.serve` keeps `Program.Valid`. -/
theorem valid_serve (hp : p.Valid) (h : p.serve request = (outcome, p')) : p'.Valid := by
  cases request with
  | define d =>
    cases h
    exact (grows_define (fun _ => False) (Prod.eta _).symm).valid hp
  | redefine name methods sourceFile =>
    cases h
    exact (edits_redefine (Prod.eta _).symm).valid hp
  | unload name =>
    cases h
    exact (grows_unload (fun _ => False) (Prod.eta _).symm).valid hp

/-- `Program.serveAll` keeps `Program.Valid`. -/
theorem valid_serveAll (hp : p₀.Valid) {requests : List RegistryRequest}
    {events : List RegistryEvent} (h : p₀.serveAll requests = (events, p)) : p.Valid := by
  induction requests generalizing p₀ events with
  | nil =>
    cases h
    exact hp
  | cons request requests ih =>
    obtain ⟨outcome, p₁, later, hserve, hall, rfl⟩ := serveAll_cons h
    exact ih (valid_serve hp hserve) hall

end Program

end StackTrace
