import StackTrace.Proofs.Program.Requests
import StackTrace.Proofs.Program.Versions

/-!
# Requests to the registry are atomic

A request that is turned down leaves no trace, and one that succeeds does one thing: a definition binds a
free name to a new class, a redefinition puts a new version of one class in force, and unloading frees a
name.  So which class a name stands for is told by the last request that succeeded in defining or
unloading it, whatever else was requested.

## Key results

- `Program.Served.lookup_iff`, `Program.lookup_serveAll`: which class a name stands for after a request,
  and after any number of them
- `Program.Served.continues`, `Program.continues_serveAll`: all versions of all classes are still found
- `Program.Served.answered`: what a request that succeeds has done
- `Program.serveAll_atomic`: all of this, after any number of requests
-/

namespace StackTrace

namespace RegistryEvent

/-- The event defines the class `id` under the name. -/
@[simp] def Defines (name : String) (id : ClassId) : RegistryEvent → Prop
  | ⟨.define d, .ok (.defined made)⟩ => d.name = name ∧ made = id
  | _ => False

/-- The event takes the name away from the class that it stands for. -/
@[simp] def Unloads (name : String) : RegistryEvent → Prop
  | ⟨.unload other, .ok (.unloaded _)⟩ => other = name
  | _ => False

/-- The event changes what the name stands for: it `Unloads` or `Defines` it. -/
@[simp] def Rebinds (name : String) (e : RegistryEvent) : Prop :=
  e.Unloads name ∨ ∃ id, e.Defines name id

/-- The last event that `Rebinds` the name defines the class. -/
def LastDefines (events : List RegistryEvent) (name : String) (id : ClassId) : Prop :=
  ∃ before e after, events = before ++ e :: after ∧ e.Defines name id ∧
    ∀ later ∈ after, ¬later.Rebinds name

variable {name : String} {id : ClassId}

/-- Without events there is none that `LastDefines` a name. -/
private theorem not_lastDefines_nil : ¬LastDefines [] name id :=
  fun ⟨_, _, _, heq, _⟩ => List.append_ne_nil_of_right_ne_nil _ (List.cons_ne_nil _ _) heq.symm

/-- The event that `LastDefines` a name is among the later ones, or the first one if none of them
    rebinds the name. -/
private theorem lastDefines_cons {e : RegistryEvent} {events : List RegistryEvent} :
    LastDefines (e :: events) name id ↔
      LastDefines events name id ∨ (e.Defines name id ∧ ∀ later ∈ events, ¬later.Rebinds name) := by
  constructor
  · rintro ⟨before, d, after, heq, hd⟩
    cases before with
    | nil =>
      obtain ⟨rfl, rfl⟩ := List.cons.inj heq
      exact .inr hd
    | cons _ before =>
      obtain ⟨-, rfl⟩ := List.cons.inj heq
      exact .inl ⟨before, d, after, rfl, hd⟩
  · rintro (⟨before, d, after, rfl, hd⟩ | he)
    · exact ⟨e :: before, d, after, rfl, hd⟩
    · exact ⟨[], e, events, rfl, he⟩

end RegistryEvent

namespace Program

variable {p p' p₀ : Program} {request : RegistryRequest}
  {outcome : Except (Failure RegistryError) RegistryAnswer}

/-! ## What a name stands for -/

/-- `Program.lookup` finds the class that the request defines under a name, or what the name stood for
    if the request does not change that. -/
theorem Served.lookup_iff (h : p.Served request outcome p') (name : String) (id : ClassId) :
    p'.lookup name = some id ↔ RegistryEvent.Defines name id ⟨request, outcome⟩ ∨
      (p.lookup name = some id ∧ ¬RegistryEvent.Rebinds name ⟨request, outcome⟩) := by
  cases h with
  | rejected | definitionStopped | redefinitionStopped | redefined =>
    -- These leave the names alone
    simp [lookup]
  | @defined d _ _ _ hfree =>
    by_cases hname : name = d.name
    · simp [lookup, hname]
    · simp [lookup, hname, Ne.symm hname]
  | @unloaded other _ hnamed =>
    by_cases hname : name = other
    · simp [lookup, hname]
    · simp [lookup, hname, Ne.symm hname]

/-- `Program.lookup` after some requests finds the class that was last defined under a name and not
    unloaded since, or what the name stood for if nothing has changed that. -/
theorem lookup_serveAll (hp : p₀.Valid) {requests : List RegistryRequest}
    {events : List RegistryEvent} (h : p₀.serveAll requests = (events, p)) (name : String)
    (id : ClassId) :
    p.lookup name = some id ↔ RegistryEvent.LastDefines events name id ∨
      (p₀.lookup name = some id ∧ ∀ e ∈ events, ¬e.Rebinds name) := by
  induction requests generalizing p₀ events with
  | nil =>
    cases h
    simp [RegistryEvent.not_lastDefines_nil]
  | cons request requests ih =>
    obtain ⟨outcome, p₁, later, hserve, hall, rfl⟩ := serveAll_cons h
    have hstep := (served_serve hp hserve).lookup_iff name id
    rw [ih (valid_serve hp hserve) hall, hstep, RegistryEvent.lastDefines_cons, List.forall_mem_cons,
      or_and_right, and_assoc, or_assoc]

end Program

/-! ## What becomes of classes -/

namespace Class

/-- All that `Class.version` found in a class is still found in what it has become. -/
structure Continues (c c' : Class) : Prop where
  name_eq : c'.name = c.name
  generation_le : c.generation ≤ c'.generation
  version_eq : ∀ generation ≤ c.generation, c'.version generation = c.version generation

/-- `Class.Continues` is reflexive. -/
theorem Continues.refl (c : Class) : c.Continues c := ⟨rfl, Nat.le_refl _, fun _ _ => rfl⟩

/-- `Class.Continues` is transitive. -/
theorem Continues.trans {c c' c'' : Class} (h : c.Continues c') (h' : c'.Continues c'') :
    c.Continues c'' where
  name_eq := h'.name_eq.trans h.name_eq
  generation_le := Nat.le_trans h.generation_le h'.generation_le
  version_eq := fun generation hle =>
    (h'.version_eq generation (Nat.le_trans hle h.generation_le)).trans (h.version_eq generation hle)

/-- A class as `Class.define` makes it. -/
structure DefinedAs (c : Class) (d : ClassDefinition) (id : ClassId) : Prop where
  id_eq : c.id = id
  name_eq : c.name.text = d.name
  generation_eq : c.generation = 0
  previous_eq : c.previous = []
  methods_eq : c.current.methods.toList.map Method.spec = d.methods.map MethodSpec.stored

/-- A class with one more version, which is in force, as `Class.redefine` makes it.  The one that was in
    force is kept with those before it, and nothing but the versions and the next ordinal is changed. -/
structure RedefinedAs (c c' : Class) (methods : List MethodSpec) : Prop extends Continues c c' where
  generation_eq : c'.generation = c.generation + 1
  previous_eq : c'.previous = c.current :: c.previous
  replaced_eq : c'.version c.generation = some c.current
  methods_eq : c'.current.methods.toList.map Method.spec = methods.map MethodSpec.stored
  rest_eq : { c' with
    current := c.current, previous := c.previous, nextOrdinal := c.nextOrdinal } = c

/-- `Class.define` makes a class as it is described. -/
private theorem definedAs_of_define {d : ClassDefinition} {id : ClassId} {symbols symbols' : SymbolTable}
    {c : Class} (h : define d id symbols = (.ok c, symbols')) : c.DefinedAs d id := by
  obtain ⟨hid, hgeneration, hprevious, -, hmethods, -⟩ := define_ok h
  refine ⟨hid, ?_, hgeneration, hprevious, hmethods⟩
  unfold define at h
  split at h
  · cases h
  · split at h
    · cases h
    · cases h
      exact SymbolTable.text_intern _ d.name

/-- `Class.redefine` adds a version as it is described, and changes nothing else. -/
private theorem redefinedAs_of_redefine {c c' : Class} {methods : List MethodSpec}
    {sourceFile : Option String} {symbols symbols' : SymbolTable}
    (h : c.redefine methods sourceFile symbols = (.ok c', symbols')) :
    c.RedefinedAs c' methods := by
  obtain ⟨-, hgeneration, hprevious, -, hmethods, -⟩ := redefine_ok h
  -- It is a change that does not purge, so all old generations stay
  have hchange : c.change (.redefine methods sourceFile symbols) = c' := by simp only [change, h]
  have hversion : ∀ generation ≤ c.generation, c'.version generation = c.version generation := by
    intro generation hle
    rw [← hchange]
    refine version_change hle fun hpurge => ?_
    cases hpurge
  -- With its versions and ordinals put back it is the class that it was
  have hrest : { c' with
      current := c.current, previous := c.previous, nextOrdinal := c.nextOrdinal } = c := by
    unfold redefine at h
    dsimp only at h
    split at h
    · cases h
    · cases h
      rfl
  exact {
    name_eq := (congrArg Class.name hrest :)
    generation_le := by omega
    version_eq := hversion
    generation_eq := hgeneration
    previous_eq := hprevious
    replaced_eq := (hversion _ (Nat.le_refl _)).trans (version_generation c)
    methods_eq := hmethods
    rest_eq := hrest }

end Class

namespace Program

variable {p p' p₀ : Program} {request : RegistryRequest}
  {outcome : Except (Failure RegistryError) RegistryAnswer}

/-- What `Program.define` does: it binds a free name to a class that was not there. -/
structure Defined (p p' : Program) (d : ClassDefinition) (id : ClassId) : Prop where
  get?_eq_none : p.get? id = none
  not_named : ∀ name, p.lookup name ≠ some id
  made : ∃ c, p'.get? id = some c ∧ c.DefinedAs d id
  others_eq : ∀ other, other ≠ id → p'.get? other = p.get? other
  lookup_eq : ∀ name, p'.lookup name = if name = d.name then some id else p.lookup name
  grows_symbols : p.symbols.Grows p'.symbols

/-- What `Program.redefine` does: it changes the class that the name stands for, and no other. -/
structure Redefined (p p' : Program) (name : String) (methods : List MethodSpec)
    (generation : Nat) : Prop where
  changed : ∃ id c c', p.lookup name = some id ∧ p.get? id = some c ∧ p'.get? id = some c' ∧
    c.RedefinedAs c' methods ∧ c'.generation = generation ∧
    ∀ other, other ≠ id → p'.get? other = p.get? other
  loaded_eq : p'.loaded = p.loaded
  grows_symbols : p.symbols.Grows p'.symbols

/-- What `Program.unload` does: it frees the name and changes nothing else. -/
structure Unloaded (p p' : Program) (name : String) (id : ClassId) : Prop where
  named : p.lookup name = some id
  lookup_eq : ∀ other, p'.lookup other = if other = name then none else p.lookup other
  classes_eq : p'.classes = p.classes
  symbols_eq : p'.symbols = p.symbols

/-- What a request that succeeds has done, by `Defined`, `Redefined` or `Unloaded`, and what it is
    answered with. -/
inductive Answered (p p' : Program) : RegistryRequest → RegistryAnswer → Prop
  | define {d : ClassDefinition} {id : ClassId} (h : p.Defined p' d id) :
      p.Answered p' (.define d) (.defined id)
  | redefine {name : String} {methods : List MethodSpec} {sourceFile : Option String}
      {generation : Nat} (h : p.Redefined p' name methods generation) :
      p.Answered p' (.redefine name methods sourceFile) (.redefined generation)
  | unload {name : String} {id : ClassId} (h : p.Unloaded p' name id) :
      p.Answered p' (.unload name) (.unloaded id)

/-- `Program.Valid` has no class and no name at the next number. -/
private theorem Valid.get?_size (hp : p.Valid) : p.get? ⟨p.classes.size⟩ = none ∧
    ∀ name, p.lookup name ≠ some ⟨p.classes.size⟩ := by
  have hnone : p.get? ⟨p.classes.size⟩ = none := Array.getElem?_size
  refine ⟨hnone, fun name hnamed => ?_⟩
  obtain ⟨c, hget⟩ := hp.exists_of_lookup hnamed
  exact nomatch hnone.symm.trans hget

/-- `Program.Served` with an answer does what `Program.Answered` says of it. -/
theorem Served.answered (hp : p.Valid) {answer : RegistryAnswer}
    (h : p.Served request (.ok answer) p') : p.Answered p' request answer := by
  cases h with
  | @defined d c symbols _ hfree h =>
    -- The class is new at its number, and all other places are as they were
    refine .define {
      get?_eq_none := hp.get?_size.1
      not_named := hp.get?_size.2
      made := ⟨c, Array.getElem?_push_size, Class.definedAs_of_define h⟩
      others_eq := fun other hother => ?_
      lookup_eq := fun name => Table.get?_insert _ _ _ _
      grows_symbols := Class.grows_define h }
    have hindex : other.index ≠ p.classes.size := ClassId.index_ne_of_ne hother
    simp only [get?, Array.getElem?_push, hindex, if_false]
  | @redefined name methods sourceFile id c c' symbols hnamed _ hget h =>
    have hclass := Class.redefinedAs_of_redefine h
    refine .redefine {
      changed := ⟨id, c, c', hnamed, hget,
        Array.getElem?_setIfInBounds_self_of_lt (index_lt_of_get? hget), hclass, rfl,
        fun other hother => ?_⟩
      loaded_eq := rfl
      grows_symbols := Class.grows_redefine h }
    have hindex : id.index ≠ other.index := (ClassId.index_ne_of_ne hother).symm
    simp only [get?, Array.getElem?_setIfInBounds, hindex, if_false]
  | @unloaded name id hnamed =>
    exact .unload {
      named := hnamed
      lookup_eq := fun other => Table.get?_erase _ _ _
      classes_eq := rfl
      symbols_eq := rfl }

/-- `Program.Served` leaves a class, with all its versions, whatever is requested. -/
theorem Served.continues (hp : p.Valid) (h : p.Served request outcome p') {id : ClassId} {c : Class}
    (hget : p.get? id = some c) : ∃ c', p'.get? id = some c' ∧ c.Continues c' := by
  cases h with
  | rejected | definitionStopped | redefinitionStopped | unloaded => exact ⟨c, hget, .refl c⟩
  | defined hsize hfree hmade =>
    cases (Served.defined hsize hfree hmade).answered hp with
    | define hdefined =>
      -- The new class takes a number that no class has
      have hne : id ≠ ⟨p.classes.size⟩ := fun heq => nomatch (heq ▸ hget).symm.trans hp.get?_size.1
      exact ⟨c, (hdefined.others_eq id hne).trans hget, .refl c⟩
  | redefined hnamed hsize hget' hmade =>
    cases (Served.redefined hnamed hsize hget' hmade).answered hp with
    | redefine hredefined =>
      obtain ⟨changed, c₀, c', -, hget₀, hafter, hclass, -, hothers⟩ := hredefined.changed
      by_cases hsame : id = changed
      · -- The class that the name stands for goes on with a new version
        subst hsame
        obtain rfl : c = c₀ := Option.some.inj (hget.symm.trans hget₀)
        exact ⟨c', hafter, hclass.toContinues⟩
      · exact ⟨c, (hothers id hsame).trans hget, .refl c⟩

/-- `Program.serveAll` leaves a class, with all its versions. -/
theorem continues_serveAll (hp : p₀.Valid) {requests : List RegistryRequest}
    {events : List RegistryEvent} (h : p₀.serveAll requests = (events, p)) {id : ClassId} {c : Class}
    (hget : p₀.get? id = some c) : ∃ c', p.get? id = some c' ∧ c.Continues c' := by
  induction requests generalizing p₀ events c with
  | nil =>
    cases h
    exact ⟨c, hget, .refl c⟩
  | cons request requests ih =>
    obtain ⟨outcome, p₁, later, hserve, hall, rfl⟩ := serveAll_cons h
    obtain ⟨c₁, hget₁, hfirst⟩ := (served_serve hp hserve).continues hp hget
    obtain ⟨c', hget', hrest⟩ := ih (valid_serve hp hserve) hall hget₁
    exact ⟨c', hget', hfirst.trans hrest⟩

/-- The requests of the registry are atomic.

    After any number of them, whether they succeeded or not, a name stands for the class that was last
    defined under it and not unloaded since, and every version of every class is still found.

    Whatever the next request is, it is turned down exactly for the reasons listed in `Rejects`, and then
    nothing at all is changed.  If it is not turned down and there is room for its methods it succeeds,
    and does what `Answered` says: a definition adds a class at generation 0, a redefinition raises the
    generation of the one class it names, and unloading frees a name.  Only a request that has no room
    ends otherwise; it leaves all classes and names. -/
theorem serveAll_atomic (hp : p₀.Valid) {requests : List RegistryRequest}
    {events : List RegistryEvent} (h : p₀.serveAll requests = (events, p)) :
    (∀ name id, p.lookup name = some id ↔ RegistryEvent.LastDefines events name id ∨
      (p₀.lookup name = some id ∧ ∀ e ∈ events, ¬e.Rebinds name)) ∧
    (∀ id c, p₀.get? id = some c → ∃ c', p.get? id = some c' ∧ c.Continues c') ∧
    ∀ request outcome p', p.serve request = (outcome, p') →
      (∀ e, outcome = .error (.error e) ↔ p.Rejects request e) ∧
      (∀ e, p.Rejects request e → p' = p) ∧
      (p.HasRoom request → (∀ e, ¬p.Rejects request e) → ∃ answer, outcome = .ok answer) ∧
      (∀ answer, outcome = .ok answer → p.Answered p' request answer) ∧
      ∀ v, outcome = .error (.violation v) → ¬p.HasRoom request ∧ p'.classes = p.classes ∧
        p'.loaded = p.loaded ∧ p.symbols.Grows p'.symbols := by
  have hvalid := valid_serveAll hp h
  refine ⟨lookup_serveAll hp h, fun id c hget => continues_serveAll hp h hget,
    fun request outcome p' hserve => ?_⟩
  have hserved := served_serve hvalid hserve
  -- Turned down, answered, or out of ordinals
  refine ⟨fun e => ⟨?_, fun hreject => (eq_of_rejects hserve hreject).1⟩,
    fun e hreject => (eq_of_rejects hserve hreject).2, hserved.exists_answer, ?_, ?_⟩
  · rintro rfl
    cases hserved with
    | rejected hreject => exact hreject
  · rintro answer rfl
    exact hserved.answered hvalid
  · rintro v rfl
    have hnot : ∀ e, ¬p.Rejects request e := fun e hreject => nomatch (eq_of_rejects hserve hreject).1
    have hfull : ¬p.HasRoom request := fun hroom => nomatch hserved.exists_answer hroom hnot
    refine ⟨hfull, ?_, ?_, hserved.grows_symbols⟩
    · cases hserved <;> rfl
    · cases hserved <;> rfl

/-- `serveAll_atomic` for a name that is used again after its class was redefined and unloaded: it
    stands for the new class, and the first version of the old one is still found.  Of two reasons to
    turn a request down the right one is reported. -/
theorem serveAll_atomic_reused :
    ∃ (d : ClassDefinition) (big : MethodSpec) (p₀ p : Program) (c₀ c : Class)
      (events : List RegistryEvent), big.Oversized ∧
      empty.serve (.define d) = (.ok (.defined ⟨0⟩), p₀) ∧ p₀.get? ⟨0⟩ = some c₀ ∧
      p₀.serveAll [.define d, .redefine d.name [] none, .unload d.name, .define d] = (events, p) ∧
      events.map (·.outcome) = [.error (.error (.duplicateClass d.name)), .ok (.redefined 1),
        .ok (.unloaded ⟨0⟩), .ok (.defined ⟨1⟩)] ∧
      p.lookup d.name = some ⟨1⟩ ∧ p.get? ⟨0⟩ = some c ∧ c.version 0 = some c₀.current ∧
      p.serve (.define { d with methods := [big] }) =
        (.error (.error (.codeTooLarge d.name big.name big.codeSize)), p) ∧
      p.serve (.redefine "acme/Gadget" [big] none) =
        (.error (.error (.unknownClass "acme/Gadget")), p) := by
  -- The run is evaluated, down to its outcomes
  obtain ⟨d, p₀, c₀, events, p, hfirst, hget, hgeneration, hall, hother, rfl⟩ :
      ∃ d p₀ c₀ events p, empty.serve (.define d) = (.ok (.defined ⟨0⟩), p₀) ∧
        p₀.get? ⟨0⟩ = some c₀ ∧ c₀.generation = 0 ∧
        p₀.serveAll [.define d, .redefine d.name [] none, .unload d.name, .define d] = (events, p) ∧
        p.lookup "acme/Gadget" = none ∧
        events = [⟨.define d, .error (.error (.duplicateClass d.name))⟩,
          ⟨.redefine d.name [] none, .ok (.redefined 1)⟩, ⟨.unload d.name, .ok (.unloaded ⟨0⟩)⟩,
          ⟨.define d, .ok (.defined ⟨1⟩)⟩] :=
    ⟨{ name := "acme/Widget", methods := [{ name := "run" }] }, _, _, _, _,
      rfl, rfl, rfl, rfl, rfl, rfl⟩
  let big : MethodSpec := { name := "run", codeSize := 65537 }
  have hempty : empty.Valid := ⟨nofun, nofun⟩
  obtain ⟨hlookup, hclasses, hnext⟩ := serveAll_atomic (valid_serve hempty hfirst) hall
  have hnamed : p.lookup d.name = some ⟨1⟩ :=
    (hlookup d.name ⟨1⟩).mpr (.inl ⟨[_, _, _], _, [], rfl, ⟨rfl, rfl⟩, nofun⟩)
  obtain ⟨c, hget', hcontinues⟩ := hclasses ⟨0⟩ c₀ hget
  have hfound : c.version 0 = some c₀.current := by
    rw [hcontinues.version_eq 0 (Nat.zero_le _), ← hgeneration, Class.version_generation]
  have hturned : ∀ request e, p.Rejects request e → p.serve request = (.error (.error e), p) := by
    intro request e hreject
    obtain ⟨hiff, hsame, -⟩ := hnext request _ _ (Prod.eta _).symm
    exact Prod.ext ((hiff e).mpr hreject) (hsame e hreject)
  have hbig : big.Oversized := ⟨rfl, by decide⟩
  have hlarge : FirstOversized [big] big := ⟨hbig, [], [], rfl, nofun⟩
  exact ⟨d, big, p₀, p, c₀, c, _, hbig, hfirst, hget, hall, rfl, hnamed, hget', hfound,
    hturned _ _ (.oversizedDefinition hlarge), hturned _ _ (.unknown hother)⟩

end Program

end StackTrace
