import StackTrace.Proofs.Program.Requests

/-!
# The size of registered code

The registry looks at the code of a class when the class is defined and each time it is redefined by
name, and turns oversized code down.  Nothing looks at the code of a class that is defined or redefined
outside the registry.  So the bound holds for the classes that were loaded through the registry and
have been changed only through it, in all their versions.

## Key results

- `Class.inBounds_of_define`, `Class.inBounds_of_redefine`: what the registry accepts keeps the bound
- `Registrations.inBounds_perform`, `Registrations.inBounds_run`: every request keeps it, whether it
  succeeds or is rejected, and so does any sequence of requests
- `Method.Registered.codeInBounds`: the code of a method that the registry has ever let in
-/

namespace StackTrace

/-- Code that the registry accepts: at most `maxCodeSize` bytes, none if it is native. -/
structure Method.CodeInBounds (m : Method) : Prop where
  size_le : m.codeSize ≤ maxCodeSize
  native_eq : m.flags.native = true → m.codeSize = 0

/-! ## What the registry accepts -/

/-- `Program.oversized` turns down a description that is too large, so among methods that pass there is
    none. -/
private theorem Program.codeSize_le_of_oversized {specs : List MethodSpec}
    (h : oversized specs = none) {spec : MethodSpec} (hspec : spec ∈ specs)
    (hmanaged : spec.flags.native = false) : spec.codeSize ≤ maxCodeSize := by
  have hsmall := List.find?_eq_none.mp h spec hspec
  simp only [hmanaged, Bool.not_false, Bool.true_and, decide_eq_true_eq] at hsmall
  omega

/-- `Method.CodeInBounds` holds of methods that are made from accepted descriptions. -/
private theorem Method.codeInBounds_of_stored {methods : Array Method} {specs : List MethodSpec}
    (hspecs : methods.toList.map Method.spec = specs.map MethodSpec.stored)
    (hsize : Program.oversized specs = none) {m : Method} (hm : m ∈ methods) : m.CodeInBounds := by
  have hmem : m.spec ∈ specs.map MethodSpec.stored := hspecs ▸ List.mem_map_of_mem hm.val
  obtain ⟨spec, hspec, heq⟩ := List.mem_map.mp hmem
  have hcode : m.codeSize = if spec.flags.native then 0 else spec.codeSize :=
    (congrArg MethodSpec.codeSize heq).symm
  have hflags : m.flags = spec.flags := (congrArg MethodSpec.flags heq).symm
  cases hnative : spec.flags.native with
  | true =>
    rw [hnative, if_pos rfl] at hcode
    exact ⟨by omega, fun _ => hcode⟩
  | false =>
    have hle := Program.codeSize_le_of_oversized hsize hspec hnative
    simp only [hnative, Bool.false_eq_true, if_false] at hcode
    exact ⟨by omega, fun h => absurd (hflags ▸ h) (by rw [hnative]; exact nofun)⟩

namespace Class

/-- The versions that a class has, latest first. -/
def versions (c : Class) : List ClassVersion := c.current :: c.previous

/-- `Method.CodeInBounds` holds of every method of every version. -/
def InBounds (c : Class) : Prop := ∀ v ∈ c.versions, ∀ m ∈ v.methods, m.CodeInBounds

/-- `Class.define` from accepted descriptions has all its code within bounds. -/
theorem inBounds_of_define {d : ClassDefinition} (hsize : Program.oversized d.methods = none)
    {id : ClassId} {symbols symbols' : SymbolTable} {c : Class}
    (h : define d id symbols = (.ok c, symbols')) : c.InBounds := by
  obtain ⟨-, -, hprevious, -, hspecs, -⟩ := define_ok h
  intro v hv m hm
  rw [versions, hprevious, List.mem_singleton] at hv
  exact Method.codeInBounds_of_stored hspecs hsize (hv ▸ hm)

/-- `Class.redefine` from accepted descriptions keeps the code within bounds. -/
theorem inBounds_of_redefine {c c' : Class} (hc : c.InBounds) {methods : List MethodSpec}
    (hsize : Program.oversized methods = none) {sourceFile : Option String}
    {symbols symbols' : SymbolTable} (h : c.redefine methods sourceFile symbols = (.ok c', symbols')) :
    c'.InBounds := by
  obtain ⟨-, -, hprevious, -, hspecs, -⟩ := redefine_ok h
  intro v hv m hm
  rw [versions, hprevious] at hv
  rcases List.mem_cons.mp hv with rfl | hv
  · exact Method.codeInBounds_of_stored hspecs hsize hm
  · exact hc v hv m hm

/-- `Class.purge` leaves no code but that of the version in force. -/
private theorem inBounds_purge {c : Class} (hc : c.InBounds) : c.purge.InBounds := by
  intro v hv m hm
  rw [List.mem_singleton.mp hv] at hm
  exact hc c.current List.mem_cons_self m hm

end Class

/-! ## What a request does to a class -/

namespace Program

variable {p p' : Program} {id : ClassId} {c : Class}

/-- `Program.define` adds a class whose code is within bounds, if it lets it in. -/
private theorem inBounds_define {d : ClassDefinition} (h : p.define d = (.ok id, p')) :
    ∃ c, p'.get? id = some c ∧ c.InBounds := by
  have hserved := served_define h
  rw [Except.map] at hserved
  cases hserved with
  | @defined _ c _ hsize _ hmade =>
    exact ⟨c, Array.getElem?_push_size, Class.inBounds_of_define (oversized_eq_none.mpr hsize) hmade⟩

/-- `Program.redefineClass` leaves the class as it is or gives it the new version. -/
private theorem get?_redefineClass (hget : p.get? id = some c) {methods : List MethodSpec}
    {sourceFile : Option String} {r : Except Violation Nat}
    (h : p.redefineClass id methods sourceFile = (r, p')) :
    p'.get? id = some c ∨ ∃ c' symbols symbols', p'.get? id = some c' ∧
      c.redefine methods sourceFile symbols = (.ok c', symbols') := by
  have hlt := index_lt_of_get? hget
  unfold redefineClass at h
  simp only [show p.classes[id.index]? = some c from hget] at h
  split at h
  · cases h
    exact .inl hget
  · rename_i c' symbols' hredefine
    cases h
    refine .inr ⟨c', p.symbols, symbols', ?_, hredefine⟩
    simp only [get?, Array.getElem?_setIfInBounds_self_of_lt hlt]

/-- `Program.redefine` keeps the bound of every class that is there. -/
private theorem inBounds_redefine (hget : p.get? id = some c) (hc : c.InBounds) {name : String}
    {methods : List MethodSpec} {sourceFile : Option String}
    {r : Except (Failure RegistryError) Nat} (h : p.redefine name methods sourceFile = (r, p')) :
    ∃ c', p'.get? id = some c' ∧ c'.InBounds := by
  by_cases hnamed : p.lookup name = some id
  · unfold redefine at h
    simp only [hnamed] at h
    split at h
    · cases h
      exact ⟨c, hget, hc⟩
    · rename_i hsize
      have hchanged : ∀ r, p.redefineClass id methods sourceFile = (r, p') →
          ∃ c', p'.get? id = some c' ∧ c'.InBounds := by
        intro r hclass
        rcases get?_redefineClass hget hclass with hsame | ⟨c', symbols, symbols', hget', hredefine⟩
        · exact ⟨c, hsame, hc⟩
        · exact ⟨c', hget', Class.inBounds_of_redefine hc hsize hredefine⟩
      split at h
      · rename_i hclass
        cases h
        exact hchanged _ hclass
      · rename_i hclass
        cases h
        exact hchanged _ hclass
  · -- It is about another class, if it is about any
    exact ⟨c, get?_of_grows (edits_redefine h).toGrows hget hnamed, hc⟩

/-- `Program.purge` keeps the bound of every class that is there. -/
private theorem inBounds_purge (hget : p.get? id = some c) (hc : c.InBounds) (other : ClassId) :
    ∃ c', (p.purge other).get? id = some c' ∧ c'.InBounds := by
  by_cases hsame : id = other
  · subst hsame
    refine ⟨c.purge, ?_, Class.inBounds_purge hc⟩
    unfold purge
    simp only [hget]
    exact Array.getElem?_setIfInBounds_self_of_lt (index_lt_of_get? hget)
  · exact ⟨c, get?_of_grows (p.edits_purge other).toGrows hget hsame, hc⟩

end Program

/-! ## Sequences of requests -/

/-- A request about classes, to the registry or past it. -/
inductive ClassRequest where
  | define (d : ClassDefinition)
  | redefine (name : String) (methods : List MethodSpec) (sourceFile : Option String)
  | unload (name : String)
  /-- Defines a class outside the registry. -/
  | defineUnregistered (d : ClassDefinition)
  /-- Makes a name stand for a class that is there. -/
  | register (name : String) (id : ClassId)
  /-- Redefines a class outside the registry. -/
  | redefineClass (id : ClassId) (methods : List MethodSpec) (sourceFile : Option String)
  /-- Drops the previous versions of a class. -/
  | purge (id : ClassId)

/-- A program, and `own`: which of its classes were loaded through the registry and have been changed
    only through it. -/
structure Registrations where
  program : Program
  own : List ClassId

namespace Registrations

/-- Carries out a request, whether that succeeds or is rejected. -/
def perform (s : Registrations) : ClassRequest → Registrations
  | .define d =>
    match s.program.define d with
    | (.error _, p) => ⟨p, s.own⟩
    | (.ok id, p) => ⟨p, id :: s.own⟩
  | .redefine name methods sourceFile => ⟨(s.program.redefine name methods sourceFile).2, s.own⟩
  | .unload name => ⟨(s.program.unload name).2, s.own⟩
  | .defineUnregistered d => ⟨(s.program.defineUnregistered d).2, s.own⟩
  | .register name id => ⟨s.program.register name id, s.own⟩
  | .redefineClass id methods sourceFile =>
    ⟨(s.program.redefineClass id methods sourceFile).2, s.own.filter (· ≠ id)⟩
  | .purge id => ⟨s.program.purge id, s.own⟩

/-- What `Registrations.perform` makes of a program none of whose classes was loaded through the
    registry. -/
def run (p : Program) (requests : List ClassRequest) : Registrations := requests.foldl perform ⟨p, []⟩

/-- `Class.InBounds` holds of the classes that are the registry's own. -/
def InBounds (s : Registrations) : Prop := ∀ id ∈ s.own, ∃ c, s.program.get? id = some c ∧ c.InBounds

variable {s : Registrations}

/-- `Registrations.InBounds` survives requests that change no class that is there. -/
private theorem InBounds.of_grows (hs : s.InBounds) {p : Program}
    (h : Program.Grows (fun _ => False) s.program p) : InBounds ⟨p, s.own⟩ := by
  intro id hid
  obtain ⟨c, hget, hc⟩ := hs id hid
  exact ⟨c, Program.get?_of_grows h hget not_false, hc⟩

/-- `Registrations.perform` keeps the code of the registry's own classes within bounds. -/
theorem inBounds_perform (hs : s.InBounds) (request : ClassRequest) : (s.perform request).InBounds := by
  cases request with
  | define d =>
    have hkept := hs.of_grows (Program.grows_define (fun _ => False) (Prod.eta (s.program.define d)).symm)
    simp only [perform]
    split
    · rename_i hdefine
      rw [hdefine] at hkept
      exact hkept
    · rename_i id p hdefine
      rw [hdefine] at hkept
      intro other hother
      rcases List.mem_cons.mp hother with rfl | hother
      · exact Program.inBounds_define hdefine
      · exact hkept other hother
  | redefine name methods sourceFile =>
    intro id hid
    obtain ⟨c, hget, hc⟩ := hs id hid
    exact Program.inBounds_redefine hget hc (Prod.eta _).symm
  | unload name => exact hs.of_grows (Program.grows_unload (fun _ => False) (Prod.eta _).symm)
  | defineUnregistered d =>
    exact hs.of_grows (Program.grows_defineUnregistered (fun _ => False) (Prod.eta _).symm).1
  | register name id => exact hs
  | redefineClass id methods sourceFile =>
    -- The class that is changed past the registry is not its own any more
    intro other hother
    obtain ⟨hother, hne⟩ := List.mem_filter.mp hother
    obtain ⟨c, hget, hc⟩ := hs other hother
    have hedits := Program.edits_redefineClass
      (Prod.eta (s.program.redefineClass id methods sourceFile)).symm
    exact ⟨c, Program.get?_of_grows hedits.toGrows hget (of_decide_eq_true hne), hc⟩
  | purge id =>
    intro other hother
    obtain ⟨c, hget, hc⟩ := hs other hother
    exact Program.inBounds_purge hget hc id

/-- `Registrations.InBounds` survives any requests. -/
private theorem inBounds_foldl (hs : s.InBounds) (requests : List ClassRequest) :
    (requests.foldl perform s).InBounds := by
  induction requests generalizing s with
  | nil => exact hs
  | cons request requests ih => exact ih (inBounds_perform hs request)

/-- `Registrations.run` keeps the code of the registry's own classes within bounds. -/
theorem inBounds_run (p : Program) (requests : List ClassRequest) : (run p requests).InBounds :=
  inBounds_foldl (fun _ h => (List.not_mem_nil h).elim) requests

end Registrations

/-- A method of some version of a class that at that time was in `Registrations.own`: loaded through the
    registry and changed only through it. -/
def Method.Registered (m : Method) : Prop :=
  ∃ p requests id c, id ∈ (Registrations.run p requests).own ∧
    (Registrations.run p requests).program.get? id = some c ∧ ∃ v ∈ c.versions, m ∈ v.methods

/-- `Method.CodeInBounds` holds of a method that the registry has ever let in. -/
theorem Method.Registered.codeInBounds {m : Method} (h : m.Registered) : m.CodeInBounds := by
  obtain ⟨p, requests, id, c, hown, hget, v, hv, hm⟩ := h
  obtain ⟨c', hget', hc⟩ := Registrations.inBounds_run p requests id hown
  obtain rfl : c = c' := Option.some.inj (hget.symm.trans hget')
  exact hc v hv m hm

end StackTrace
