import StackTrace.Proofs.Program.Lineage
import StackTrace.Throwable

/-!
# Running out of ordinals

A class has 65535 ordinals for its lifetime.  A definition or redefinition that needs more is refused
while it is being carried out, when some of its methods have been made already.  It leaves nothing
behind but interned texts: what was in force goes on to be in force, and since redefining the methods
that are there needs no ordinals, the class can still be redefined.

## Key results

- `Class.Lineage.nextOrdinal_le`: the next unused ordinal never passes the last
- `Class.ordinals_exhausted`: when the ordinals of a class run out, and what becomes of it then
-/

namespace StackTrace

namespace Class

/-- `Class.nextOrdinal` never passes the last ordinal, whatever versions a class has had. -/
theorem Lineage.nextOrdinal_le {c : Class} {versions : List ClassVersion} (h : c.Lineage versions) :
    c.nextOrdinal ≤ 65535 := by
  -- A step that has succeeded had room, or else it would have been refused
  induction h with
  | @define d id symbols symbols' c hdefine =>
    by_cases hroom : d.methods.length ≤ 65535
    · obtain ⟨c', symbols'', hdefine', hnext⟩ := define_of_room hroom id symbols
      rw [hdefine] at hdefine'
      cases hdefine'
      exact hnext ▸ hroom
    · obtain ⟨symbols'', hrefused⟩ := define_of_no_room (Nat.lt_of_not_le hroom) id symbols
      rw [hdefine] at hrefused
      cases hrefused
  | @redefine c c' versions methods sourceFile symbols symbols' _ hredefine ih =>
    by_cases hroom : c.nextOrdinal + c.current.added methods ≤ 65535
    · obtain ⟨c'', symbols'', hredefine', hnext⟩ :=
        c.redefine_of_room methods sourceFile symbols hroom
      rw [hredefine] at hredefine'
      cases hredefine'
      exact hnext ▸ hroom
    · obtain ⟨symbols'', hrefused⟩ :=
        c.redefine_of_no_room methods sourceFile symbols ih (Nat.lt_of_not_le hroom)
      rw [hredefine] at hrefused
      cases hrefused
  | purge _ ih => exact ih

/-- `Class.nextOrdinal` does not pass it in whatever becomes of a class, either. -/
theorem Loaded.nextOrdinal_le {c : Class} (h : c.Loaded) : c.nextOrdinal ≤ 65535 := by
  obtain ⟨versions, hversions⟩ := loaded_iff_exists_lineage.mp h
  exact hversions.nextOrdinal_le

/-- `Class.evolve` leads to classes that can come about. -/
private theorem Loaded.evolve {c : Class} (h : c.Loaded) (history : List ClassChange) :
    (c.evolve history).Loaded := by
  induction history generalizing c with
  | nil => exact h
  | cons x history ih => exact ih (h.change x)

end Class

/-! ## Redefinitions in a program -/

namespace Program

variable {p : Program} {id : ClassId} {c : Class}

/-- Where there is room `Program.redefineClass` puts the new class in the place of the old one. -/
private theorem redefineClass_of_room (hget : p.get? id = some c) {methods : List MethodSpec}
    (hroom : c.nextOrdinal + c.current.added methods ≤ 65535) (sourceFile : Option String) :
    ∃ c' p', p.redefineClass id methods sourceFile = (.ok (c.generation + 1), p') ∧
      p'.get? id = some c' ∧ c'.generation = c.generation + 1 ∧
      c'.nextOrdinal = c.nextOrdinal + c.current.added methods := by
  obtain ⟨c', symbols', hredefine, hnext⟩ :=
    c.redefine_of_room methods sourceFile p.symbols hroom
  have hgeneration := (Class.redefine_ok hredefine).2.1
  have hlt : id.index < p.classes.size := (Array.getElem?_eq_some_iff.mp hget).1
  refine ⟨c', ⟨symbols', p.classes.setIfInBounds id.index c', p.loaded⟩, ?_,
    Array.getElem?_setIfInBounds_self_of_lt hlt, hgeneration, hnext⟩
  simp only [redefineClass, show p.classes[id.index]? = some c from hget, hredefine, hgeneration]

/-- Where there is none `Program.redefineClass` leaves all classes and the registry as they were. -/
private theorem redefineClass_of_no_room (hget : p.get? id = some c) (hle : c.nextOrdinal ≤ 65535)
    {methods : List MethodSpec} (hfull : 65535 < c.nextOrdinal + c.current.added methods)
    (sourceFile : Option String) :
    ∃ symbols, p.redefineClass id methods sourceFile =
      (.error .tooManyMethods, { p with symbols }) := by
  obtain ⟨symbols', hredefine⟩ :=
    c.redefine_of_no_room methods sourceFile p.symbols hle hfull
  refine ⟨symbols', ?_⟩
  simp only [redefineClass, show p.classes[id.index]? = some c from hget, hredefine]

end Program

namespace Class

/-- `Class.define` and `Class.redefine` when ordinals run out, and what becomes of a class then.  A
    definition is refused exactly if it lists more than 65535 methods.  Whatever has become of a class,
    all ordinals that it has ever given out are below `Class.nextOrdinal`, which is not above 65535, and
    none stands for methods of two names or signatures.  A redefinition is refused exactly if the
    ordinals from there on do not suffice for the methods that it adds to the version in force.  Then
    all classes are as they were, every frame names the method that it named and is shown as before, and
    in any later history a redefinition that adds no method succeeds. -/
theorem ordinals_exhausted :
    (∀ (d : ClassDefinition) (id : ClassId) (symbols : SymbolTable),
      (∃ v, (define d id symbols).1 = .error v) ↔ 65535 < d.methods.length) ∧
    ∀ (c : Class) (versions : List ClassVersion), c.Lineage versions →
      c.nextOrdinal ≤ 65535 ∧
      (∀ v ∈ versions, ∀ m ∈ v.methods, m.ordinal < c.nextOrdinal ∧
        ∀ v' ∈ versions, ∀ m' ∈ v'.methods, m.ordinal = m'.ordinal → m.key = m'.key) ∧
      ∀ (p : Program) (id : ClassId), p.get? id = some c →
      ∀ (methods : List MethodSpec) (sourceFile : Option String) (r : Except Violation Nat)
        (p' : Program), p.redefineClass id methods sourceFile = (r, p') →
        ((∃ v, r = .error v) ↔ 65535 < c.nextOrdinal + c.current.added methods) ∧
        (∀ generation, r = .ok generation → ∃ c', p'.get? id = some c' ∧
          c'.generation = generation ∧ c'.nextOrdinal = c.nextOrdinal + c.current.added methods) ∧
        ∀ v, r = .error v → v = .tooManyMethods ∧ p'.classes = p.classes ∧
          p'.loaded = p.loaded ∧ p'.get? id = some c ∧
          (∀ f, Throwable.resolve? p' f = Throwable.resolve? p f ∧
            Throwable.liveMethod? p' f = Throwable.liveMethod? p f ∧
            StackTraceElement.ofFrame p' f = StackTraceElement.ofFrame p f) ∧
          ∀ (history : List ClassChange) (p₁ : Program), p₁.get? id = some (c.evolve history) →
            ∀ (listed : List MethodSpec) (file : Option String),
              (c.evolve history).current.added listed = 0 →
              ∃ p₂, p₁.redefineClass id listed file =
                (.ok ((c.evolve history).generation + 1), p₂) := by
  refine ⟨fun d id symbols => ?_, fun c versions h => ⟨h.nextOrdinal_le, ?_, ?_⟩⟩
  -- A definition: with room it is made, and without it is refused
  · by_cases hroom : d.methods.length ≤ 65535
    · obtain ⟨c, symbols', hdefine, -⟩ := define_of_room hroom id symbols
      rw [hdefine]
      exact ⟨fun ⟨_, hv⟩ => (nomatch hv), fun hfull => absurd hroom (Nat.not_le_of_lt hfull)⟩
    · have hfull := Nat.lt_of_not_le hroom
      obtain ⟨symbols', hrefused⟩ := define_of_no_room hfull id symbols
      rw [hrefused]
      exact ⟨fun _ => hfull, fun _ => ⟨_, rfl⟩⟩
  · intro v hv m hm
    exact ⟨h.ordinal_lt v hv m hm, fun v' hv' m' hm' =>
      h.key_eq_of_ordinal_eq v hv v' hv' m hm m' hm'⟩
  -- A redefinition, likewise
  · intro p id hget methods sourceFile r p' hredefine
    by_cases hroom : c.nextOrdinal + c.current.added methods ≤ 65535
    · obtain ⟨c', p'', hdone, hget', hgeneration, hnext⟩ :=
        Program.redefineClass_of_room hget hroom sourceFile
      rw [hdone] at hredefine
      cases hredefine
      refine ⟨⟨fun ⟨_, hv⟩ => (nomatch hv), fun hfull => absurd hroom (Nat.not_le_of_lt hfull)⟩,
        fun generation hok => ?_, fun v hv => nomatch hv⟩
      cases hok
      exact ⟨c', hget', hgeneration, hnext⟩
    · have hfull := Nat.lt_of_not_le hroom
      obtain ⟨symbols, hrefused⟩ :=
        Program.redefineClass_of_no_room hget h.nextOrdinal_le hfull sourceFile
      rw [hrefused] at hredefine
      cases hredefine
      refine ⟨⟨fun _ => hfull, fun _ => ⟨_, rfl⟩⟩, fun generation hok => (nomatch hok),
        fun v hv => ?_⟩
      cases hv
      -- Frames are resolved by way of the classes, and these are the same
      refine ⟨rfl, rfl, rfl, hget, fun f => ⟨rfl, rfl, rfl⟩,
        fun history p₁ hget₁ listed file hnone => ?_⟩
      have hloaded : (c.evolve history).Loaded :=
        (loaded_iff_exists_lineage.mpr ⟨versions, h⟩).evolve history
      have hroom : (c.evolve history).nextOrdinal + (c.evolve history).current.added listed ≤ 65535 :=
        hnone ▸ hloaded.nextOrdinal_le
      obtain ⟨-, p₂, hdone, -⟩ := Program.redefineClass_of_room hget₁ hroom file
      exact ⟨p₂, hdone⟩

/-- `ordinals_exhausted` for a class with 65535 methods, all of one name, which has no ordinal left.  A
    method of another name is refused, also behind one that is there; listing only what is there
    succeeds after that. -/
theorem ordinals_exhausted_full : ∃ (c : Class) (p p' p'' : Program), c.Lineage [c.current] ∧
    p.get? ⟨0⟩ = some c ∧ c.nextOrdinal = 65535 ∧
    p.redefineClass ⟨0⟩ [{ name := "run" }, { name := "walk" }] none =
      (.error .tooManyMethods, p') ∧
    p'.get? ⟨0⟩ = some c ∧
    p'.redefineClass ⟨0⟩ [{ name := "run" }] none = (.ok 1, p'') := by
  obtain ⟨c, symbols, hdefine, hnext⟩ := define_of_room
    (d := { name := "acme/Widget", methods := List.replicate 65535 { name := "run" } })
    (Nat.le_of_eq List.length_replicate) ⟨0⟩ SymbolTable.empty
  replace hnext : c.nextOrdinal = 65535 := hnext.trans List.length_replicate
  obtain ⟨-, hgeneration, -, -, hspecs, -⟩ := define_ok hdefine
  -- Too many methods to look at one by one, so they are told by their keys
  have hkeys : c.current.methods.toList.map Method.key = List.replicate 65535 ("run", "()V") :=
    (map_key_of_map_spec hspecs).trans List.map_replicate
  have hdeclares : ∀ key, c.current.Declares key ↔ key = ("run", "()V") := by
    intro key
    rw [ClassVersion.declares_iff, hkeys, List.mem_replicate]
    exact and_iff_right (by decide)
  have hrun : ∀ specs, c.current.added ({ name := "run" } :: specs) = c.current.added specs :=
    ClassVersion.added_cons_of_declares ((hdeclares _).mpr rfl)
  have hwalk : c.current.added [{ name := "walk" }] = 1 :=
    ClassVersion.added_cons_of_not_declares (mt (hdeclares _).mp (by decide)) []
  have hlineage : c.Lineage [c.current] := .define hdefine
  have hget : (Program.mk symbols #[c] Table.empty).get? ⟨0⟩ = some c := rfl
  -- The theorem for that class: refused as one ordinal is missing, and taken with none to add
  obtain ⟨-, hclasses⟩ := ordinals_exhausted
  obtain ⟨-, -, hredefine⟩ := hclasses c _ hlineage
  obtain ⟨r, p', hrefused⟩ : ∃ r p', (Program.mk symbols #[c] Table.empty).redefineClass ⟨0⟩
    [{ name := "run" }, { name := "walk" }] none = (r, p') := ⟨_, _, rfl⟩
  obtain ⟨hiff, -, hafter⟩ := hredefine _ ⟨0⟩ hget _ none r p' hrefused
  obtain ⟨v, rfl⟩ := hiff.mpr (by rw [hrun, hwalk, hnext]; decide)
  obtain ⟨rfl, -, -, hget', -, hlater⟩ := hafter v rfl
  obtain ⟨p'', hdone⟩ := hlater [] p' hget' [{ name := "run" }] none (hrun [])
  rw [show (c.evolve []).generation = 0 from hgeneration] at hdone
  exact ⟨c, _, p', p'', hlineage, hget, hnext, hrefused, hget', hdone⟩

end Class

end StackTrace
