import StackTrace.Proofs.Table
import StackTrace.Program.Registry

/-!
# How a program changes

Whatever is done to a program, it loses no class.  Defining adds one behind all others; redefining and
purging change one class in its place; the registry only says which class each name stands for.

`Program.Grows` is what all of these have in common: the classes outside a set of changed ones stay as
they are.  `Program.Edits` says besides that the registry is the same.

## Key results

- `Program.Valid`: the number of a class is its place, and names stand for classes that are there
- `Program.grows_define`, `Program.grows_unload`, `Program.edits_redefine`, `Program.edits_purge`:
  what each change leaves
- `Program.get?_of_grows`: a class that is not changed stays as it is
-/

namespace StackTrace

/-- `ClassId.index` tells classes apart. -/
theorem ClassId.index_ne_of_ne {id other : ClassId} (h : id ≠ other) : id.index ≠ other.index :=
  fun heq => h (congrArg ClassId.mk heq)

/-- `Class.define` gives the class the number that it is defined under. -/
private theorem Class.id_of_define {d : ClassDefinition} {id : ClassId} {symbols symbols' : SymbolTable}
    {c : Class} (h : Class.define d id symbols = (.ok c, symbols')) : c.id = id := by
  unfold Class.define at h
  split at h
  · cases h
  · split at h
    · cases h
    · cases h
      rfl

/-- `Class.redefine` does not change the number. -/
private theorem Class.id_of_redefine {c c' : Class} {methods : List MethodSpec}
    {sourceFile : Option String} {symbols symbols' : SymbolTable}
    (h : c.redefine methods sourceFile symbols = (.ok c', symbols')) : c'.id = c.id := by
  unfold Class.redefine at h
  simp only at h
  split at h
  · cases h
  · cases h
    rfl

namespace Program

/-- The number of a class is its place among `Program.classes`, and names stand for classes that are
    there. -/
structure Valid (p : Program) : Prop where
  id_eq : ∀ {id c}, p.get? id = some c → c.id = id
  loaded_lt : ∀ id ∈ p.loaded.values, id.index < p.classes.size

/-- What becomes of a program when at most the classes in `changed` are changed, and others added. -/
structure Grows (changed : ClassId → Prop) (p p' : Program) : Prop where
  size_le : p.classes.size ≤ p'.classes.size
  get?_eq : ∀ id, id.index < p.classes.size → ¬changed id → p'.get? id = p.get? id
  valid : p.Valid → p'.Valid

/-- What becomes of a program when at most the classes in `changed` are changed, and names stand for the
    same classes as before. -/
structure Edits (changed : ClassId → Prop) (p p' : Program) : Prop extends Grows changed p p' where
  loaded_eq : p'.loaded = p.loaded

variable {changed : ClassId → Prop} {p p' p'' : Program} {id : ClassId} {c : Class}

/-- `Program.get?` finds classes of the program only. -/
theorem index_lt_of_get? (h : p.get? id = some c) : id.index < p.classes.size :=
  (Array.getElem?_eq_some_iff.mp h).1

namespace Grows

/-- `Grows` is reflexive. -/
theorem refl (changed : ClassId → Prop) (p : Program) : Grows changed p p :=
  ⟨Nat.le_refl _, fun _ _ _ => rfl, id⟩

/-- `Grows` is transitive. -/
theorem trans (h : Grows changed p p') (h' : Grows changed p' p'') : Grows changed p p'' where
  size_le := Nat.le_trans h.size_le h'.size_le
  get?_eq := by
    intro id hlt hkept
    rw [h'.get?_eq id (Nat.lt_of_lt_of_le hlt h.size_le) hkept, h.get?_eq id hlt hkept]
  valid := fun hp => h'.valid (h.valid hp)

/-- `Grows` lets fewer classes be changed than are allowed to. -/
theorem mono {more : ClassId → Prop} (h : Grows changed p p') (hmore : ∀ id, changed id → more id) :
    Grows more p p' :=
  ⟨h.size_le, fun id hlt hkept => h.get?_eq id hlt fun hid => hkept (hmore id hid), h.valid⟩

end Grows

namespace Edits

/-- `Edits` is reflexive. -/
theorem refl (changed : ClassId → Prop) (p : Program) : Edits changed p p := ⟨.refl changed p, rfl⟩

/-- `Edits` is transitive. -/
theorem trans (h : Edits changed p p') (h' : Edits changed p' p'') : Edits changed p p'' :=
  ⟨h.toGrows.trans h'.toGrows, h'.loaded_eq.trans h.loaded_eq⟩

/-- `Edits` lets fewer classes be changed than are allowed to. -/
theorem mono {more : ClassId → Prop} (h : Edits changed p p') (hmore : ∀ id, changed id → more id) :
    Edits more p p' :=
  ⟨h.toGrows.mono hmore, h.loaded_eq⟩

end Edits

/-- `Grows` leaves a class that is there and is not changed as it is. -/
theorem get?_of_grows (h : Grows changed p p') (hget : p.get? id = some c) (hkept : ¬changed id) :
    p'.get? id = some c :=
  (h.get?_eq id (index_lt_of_get? hget) hkept).trans hget

/-! ## Single changes -/

/-- `Grows` takes no notice of symbols. -/
theorem grows_symbols (changed : ClassId → Prop) (p : Program) (symbols : SymbolTable) :
    Grows changed p { p with symbols } where
  size_le := Nat.le_refl _
  get?_eq := fun _ _ _ => rfl
  valid := fun hp => ⟨hp.id_eq, hp.loaded_lt⟩

/-- `Program.register` of a class that is there changes no class. -/
theorem grows_register (changed : ClassId → Prop) (p : Program) (name : String)
    (hlt : id.index < p.classes.size) : Grows changed p (p.register name id) where
  size_le := Nat.le_refl _
  get?_eq := fun _ _ _ => rfl
  valid := by
    intro hp
    refine ⟨hp.id_eq, fun other hother => ?_⟩
    rcases Table.eq_or_mem_of_mem_insert hother with rfl | hother
    · exact hlt
    · exact hp.loaded_lt other hother

/-- `Array.push` of a new class puts it behind all others, where its number is its place. -/
private theorem grows_push (changed : ClassId → Prop) (p : Program) (symbols : SymbolTable)
    (hid : c.id = ⟨p.classes.size⟩) :
    Grows changed p ⟨symbols, p.classes.push c, p.loaded⟩ where
  size_le := by
    rw [Array.size_push]
    exact Nat.le_succ _
  get?_eq := by
    intro id hlt _
    simp only [get?, Array.getElem?_push, Nat.ne_of_lt hlt, if_false]
  valid := by
    intro hp
    constructor
    · intro id d hget
      -- The class at the new place is the new one, and the others are where they were
      simp only [get?, Array.getElem?_push] at hget
      split at hget
      · rename_i heq
        cases hget
        rw [hid, ← heq]
      · exact hp.id_eq hget
    · intro id hmem
      rw [Array.size_push]
      exact Nat.lt_succ_of_lt (hp.loaded_lt id hmem)

/-- `Array.setIfInBounds` replaces a class by one that has its number. -/
private theorem grows_set (p : Program) (symbols : SymbolTable) (hid : p.Valid → c.id = id) :
    Grows (· = id) p ⟨symbols, p.classes.setIfInBounds id.index c, p.loaded⟩ where
  size_le := Nat.le_of_eq Array.size_setIfInBounds.symm
  get?_eq := by
    intro other _ hne
    have hindex : id.index ≠ other.index := (ClassId.index_ne_of_ne hne).symm
    simp only [get?, Array.getElem?_setIfInBounds, hindex, if_false]
  valid := by
    intro hp
    constructor
    · intro other d hget
      -- The class that was replaced has its own number again
      simp only [get?, Array.getElem?_setIfInBounds] at hget
      split at hget
      · rename_i heq
        split at hget
        · cases hget
          rw [hid hp]
          cases id
          cases other
          simpa using heq
        · cases hget
      · exact hp.id_eq hget
    · intro other hmem
      rw [Array.size_setIfInBounds]
      exact hp.loaded_lt other hmem

/-! ## Operations -/

/-- `Program.defineUnregistered` adds a class; a rejected definition adds none. -/
theorem grows_defineUnregistered (changed : ClassId → Prop) {d : ClassDefinition}
    {r : Except Violation ClassId} (h : p.defineUnregistered d = (r, p')) :
    Grows changed p p' ∧ ∀ id, r = .ok id → id.index < p'.classes.size := by
  unfold defineUnregistered at h
  simp only at h
  split at h
  · cases h
    exact ⟨grows_symbols changed p _, nofun⟩
  · rename_i hdefine
    cases h
    refine ⟨grows_push changed p _ (Class.id_of_define hdefine), fun id hid => ?_⟩
    cases hid
    rw [Array.size_push]
    exact Nat.lt_succ_self _

/-- `Program.define` changes no class that is there. -/
theorem grows_define (changed : ClassId → Prop) {d : ClassDefinition}
    {r : Except (Failure RegistryError) ClassId} (h : p.define d = (r, p')) :
    Grows changed p p' := by
  unfold define at h
  split at h
  · cases h
    exact .refl changed p
  · split at h
    · cases h
      exact .refl changed p
    · split at h
      -- Only a class that was made is registered
      · rename_i hdefine
        cases h
        exact (grows_defineUnregistered changed hdefine).1
      · rename_i hdefine
        obtain ⟨hgrows, hlt⟩ := grows_defineUnregistered changed hdefine
        cases h
        exact hgrows.trans (grows_register changed _ _ (hlt _ rfl))

/-- `Program.redefineClass` changes the class in its place, or nothing if it needs too many ordinals. -/
theorem edits_redefineClass {methods : List MethodSpec} {sourceFile : Option String}
    {r : Except Violation Nat} (h : p.redefineClass id methods sourceFile = (r, p')) :
    Edits (· = id) p p' := by
  unfold redefineClass at h
  simp only at h
  split at h
  · cases h
    exact .refl _ p
  · rename_i c hget
    split at h
    · cases h
      exact ⟨grows_symbols _ p _, rfl⟩
    · rename_i hredefine
      cases h
      refine ⟨grows_set p _ fun hp => ?_, rfl⟩
      exact (Class.id_of_redefine hredefine).trans (hp.id_eq hget)

/-- `Program.purge` changes the class in its place. -/
theorem edits_purge (p : Program) (id : ClassId) : Edits (· = id) p (p.purge id) := by
  unfold purge
  split
  · exact .refl _ p
  · rename_i c hget
    have hid : p.Valid → c.purge.id = id := fun hp => show c.id = id from hp.id_eq hget
    exact ⟨grows_set p _ hid, rfl⟩

/-- `Program.redefine` changes the class that the name stands for, if it changes any. -/
theorem edits_redefine {name : String} {methods : List MethodSpec} {sourceFile : Option String}
    {r : Except (Failure RegistryError) Nat} (h : p.redefine name methods sourceFile = (r, p')) :
    Edits (fun id => p.lookup name = some id) p p' := by
  unfold redefine at h
  split at h
  · cases h
    exact .refl _ p
  · rename_i id hlookup
    -- The class that is edited is the one that the name stood for
    have hnamed : ∀ other, other = id → p.lookup name = some other :=
      fun other heq => hlookup.trans (congrArg some heq.symm)
    split at h
    · cases h
      exact .refl _ p
    · split at h
      · rename_i hredefine
        cases h
        exact (edits_redefineClass hredefine).mono hnamed
      · rename_i hredefine
        cases h
        exact (edits_redefineClass hredefine).mono hnamed

/-- `Program.unload` takes a name out of the registry and changes no class. -/
theorem grows_unload (changed : ClassId → Prop) {name : String}
    {r : Except RegistryError ClassId} (h : p.unload name = (r, p')) : Grows changed p p' := by
  unfold unload at h
  split at h
  · cases h
    exact .refl changed p
  · cases h
    refine ⟨Nat.le_refl _, fun _ _ _ => rfl, fun hp => ⟨hp.id_eq, fun id hid => ?_⟩⟩
    exact hp.loaded_lt id (Table.mem_values_of_mem_erase hid)

end Program

end StackTrace
