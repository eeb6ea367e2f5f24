import StackTrace.Program.Class

/-!
# Symbols that stay

A text that has a symbol keeps it, whatever classes are made with the table afterwards.

## Key results

- `SymbolTable.grows_intern`: interning takes no symbol away
- `Class.grows_define`, `Class.grows_redefine`: nor does making the methods of a class, even where it ends
  before all of them are made
-/

namespace StackTrace

namespace SymbolTable

/-- The texts that `SymbolTable.probe` finds in one table have the same symbols in the other. -/
def Grows (t t' : SymbolTable) : Prop :=
  ∀ (text : String) (s : Symbol), t.probe text = some s → t'.probe text = some s

variable {t t' t'' : SymbolTable}

/-- `SymbolTable.Grows` is reflexive. -/
theorem Grows.refl (t : SymbolTable) : t.Grows t := fun _ _ h => h

/-- `SymbolTable.Grows` is transitive. -/
theorem Grows.trans (h : t.Grows t') (h' : t'.Grows t'') : t.Grows t'' :=
  fun text s hs => h' text s (h text s hs)

/-- `SymbolTable.intern` gives a text that has a symbol no other one. -/
private theorem intern_of_probe {text : String} {s : Symbol} (h : t.probe text = some s) :
    t.intern text = (s, t) := by
  obtain ⟨identity, hidentity, rfl⟩ := Option.map_eq_some_iff.mp h
  simp only [intern, hidentity]

/-- `SymbolTable.intern` takes no symbol away. -/
theorem grows_intern (t : SymbolTable) (text : String) : t.Grows (t.intern text).2 := by
  intro other s hs
  by_cases hsame : other = text
  · rw [intern_of_probe (hsame ▸ hs)]
    exact hs
  · rw [probe_intern_of_ne t hsame, hs]

/-- `SymbolTable.intern?` takes no symbol away. -/
private theorem grows_intern? (t : SymbolTable) (text : Option String) : t.Grows (t.intern? text).2 := by
  cases text with
  | none => exact .refl t
  | some text => exact t.grows_intern text

end SymbolTable

/-- `MethodSpec.load` takes no symbol away. -/
private theorem MethodSpec.grows_load (spec : MethodSpec) (holder : ClassId) (generation place ordinal : Nat)
    (symbols : SymbolTable) :
    symbols.Grows (spec.load holder generation place ordinal symbols).2 :=
  (symbols.grows_intern spec.name).trans (SymbolTable.grows_intern _ spec.signature)

namespace Class

/-- `Class.loadFirst` takes no symbol away. -/
private theorem grows_loadFirst (holder : ClassId) (loaded : Array Method) (symbols : SymbolTable)
    (specs : List MethodSpec) : symbols.Grows (loadFirst holder loaded symbols specs).2 := by
  induction specs generalizing loaded symbols with
  | nil => exact .refl symbols
  | cons spec specs ih =>
    unfold loadFirst
    split
    · exact .refl symbols
    · rename_i ordinal _
      have hspec := spec.grows_load holder 0 loaded.size ordinal symbols
      exact hspec.trans (ih _ _)

/-- `Class.loadLater` takes no symbol away. -/
private theorem grows_loadLater (holder : ClassId) (generation : Nat)
    (known : Std.HashMap (String × String) Nat) (loaded : Array Method) (next : Nat)
    (symbols : SymbolTable) (specs : List MethodSpec) :
    symbols.Grows (loadLater holder generation known loaded next symbols specs).2 := by
  induction specs generalizing loaded next symbols with
  | nil => exact .refl symbols
  | cons spec specs ih =>
    unfold loadLater
    split
    · rename_i ordinal _
      have hspec := spec.grows_load holder generation loaded.size ordinal symbols
      exact hspec.trans (ih _ _ _)
    · split
      · exact .refl symbols
      · have hspec := spec.grows_load holder generation loaded.size next symbols
        exact hspec.trans (ih _ _ _)

/-- `Class.define` takes no symbol away, and neither does a definition that is refused. -/
theorem grows_define {d : ClassDefinition} {id : ClassId} {symbols symbols' : SymbolTable}
    {r : Except Violation Class} (h : define d id symbols = (r, symbols')) : symbols.Grows symbols' := by
  have hload := grows_loadFirst id #[] symbols d.methods
  unfold define at h
  split at h
  · rename_i heq
    rw [heq] at hload
    cases h
    exact hload
  · rename_i heq
    rw [heq] at hload
    split at h
    · cases h
      exact hload
    -- The name, and then the texts that may be absent
    · cases h
      exact hload.trans <| (SymbolTable.grows_intern _ d.name).trans <|
        (SymbolTable.grows_intern? _ _).trans <| (SymbolTable.grows_intern? _ _).trans <|
        (SymbolTable.grows_intern? _ _).trans <| SymbolTable.grows_intern? _ _

/-- `Class.redefine` takes no symbol away. -/
theorem grows_redefine {c : Class} {methods : List MethodSpec} {sourceFile : Option String}
    {symbols symbols' : SymbolTable} {r : Except Violation Class}
    (h : c.redefine methods sourceFile symbols = (r, symbols')) : symbols.Grows symbols' := by
  have hload := grows_loadLater c.id (c.current.generation + 1) c.current.ordinals #[] c.nextOrdinal
    symbols methods
  unfold redefine at h
  dsimp only at h
  split at h
  · rename_i heq
    rw [heq] at hload
    cases h
    exact hload
  · rename_i heq
    rw [heq] at hload
    cases h
    exact hload.trans (SymbolTable.grows_intern? _ sourceFile)

end Class

end StackTrace
