import StackTrace.Program.Registry

/-!
# Versions of a class over its history

A class goes on being redefined and purged.  A version that is kept is found under its generation and
never changes; it is lost in the first purge after its replacement, and does not come back.

## Key results

- `Class.Loaded.previous_lt`: replaced versions have smaller generations than the one in force
- `Class.version_evolve_of_kept`, `Class.version_evolve_of_purged`: what becomes of a version in any
  history
-/

namespace StackTrace

/-- A change to the code of a class. -/
inductive ClassChange where
  | redefine (methods : List MethodSpec) (sourceFile : Option String) (symbols : SymbolTable)
  | purge

namespace Class

/-- Makes a change.  A `Class.redefine` that needs too many ordinals does nothing. -/
def change (c : Class) : ClassChange → Class
  | .redefine methods sourceFile symbols =>
    match c.redefine methods sourceFile symbols with
    | (.ok c, _) => c
    | (.error _, _) => c
  | .purge => c.purge

/-- The class after each `change` of a history, in order. -/
def evolve (c : Class) (history : List ClassChange) : Class := history.foldl change c

/-- The classes that come about by `Class.define` and any changes. -/
inductive Loaded : Class → Prop
  | define {d : ClassDefinition} {id : ClassId} {symbols symbols' : SymbolTable} {c : Class}
      (h : Class.define d id symbols = (.ok c, symbols')) : Loaded c
  | change {c : Class} (h : Loaded c) (x : ClassChange) : Loaded (c.change x)

/-- Some purge in the history came after the version of `generation` was replaced. -/
def PurgedSince (c : Class) (generation : Nat) (history : List ClassChange) : Prop :=
  ∃ before after, history = before ++ .purge :: after ∧
    (c.evolve before).generation ≠ generation

/-- `Class.change` is a redefinition, a purge or nothing. -/
theorem change_cases (c : Class) (x : ClassChange) :
    (∃ sourceFile methods nextOrdinal, c.change x = { c with
      current := ⟨c.generation + 1, sourceFile, methods⟩
      previous := c.current :: c.previous
      nextOrdinal }) ∨ (x = .purge ∧ c.change x = c.purge) ∨ (x ≠ .purge ∧ c.change x = c) := by
  cases x with
  | purge => exact .inr (.inl ⟨rfl, rfl⟩)
  | redefine methods sourceFile symbols =>
    simp only [change, redefine]
    split
    · rename_i heq
      split at heq
      · exact nomatch heq
      · cases heq
        exact .inl ⟨_, _, _, rfl⟩
    · exact .inr (.inr ⟨nofun, rfl⟩)

/-- `Class.change` takes no generation back. -/
private theorem generation_le_change (c : Class) (x : ClassChange) :
    c.generation ≤ (c.change x).generation := by
  rcases change_cases c x with ⟨_, _, _, heq⟩ | ⟨-, heq⟩ | ⟨-, heq⟩
  · exact heq ▸ Nat.le_succ c.generation
  · exact heq ▸ Nat.le_refl c.generation
  · exact Nat.le_of_eq (congrArg generation heq).symm

/-- `Class.evolve` takes no generation back. -/
private theorem generation_le_evolve (c : Class) (history : List ClassChange) :
    c.generation ≤ (c.evolve history).generation := by
  induction history generalizing c with
  | nil => exact Nat.le_refl _
  | cons x history ih => exact Nat.le_trans (c.generation_le_change x) (ih (c.change x))

/-- `Class.evolve` along one history after the other. -/
private theorem evolve_append (c : Class) (before after : List ClassChange) :
    c.evolve (before ++ after) = (c.evolve before).evolve after := List.foldl_append

namespace Loaded

variable {c : Class}

/-- `Class.previous` versions have smaller generations than the one in force. -/
theorem previous_lt (h : c.Loaded) : ∀ v ∈ c.previous, v.generation < c.generation := by
  -- Induction on what has become of the class; a purge drops the replaced versions
  induction h with
  | define h =>
    unfold Class.define at h
    split at h
    · exact nomatch h
    · split at h
      · exact nomatch h
      · cases h
        exact fun v hv => nomatch hv
  | @change c h x ih =>
    intro v hv
    rcases change_cases c x with ⟨_, _, _, heq⟩ | ⟨-, heq⟩ | ⟨-, heq⟩
    · rw [heq] at hv ⊢
      rcases List.mem_cons.mp hv with rfl | hv
      · exact Nat.lt_succ_self _
      · exact Nat.lt_succ_of_lt (ih v hv)
    · rw [heq] at hv
      exact nomatch hv
    · rw [heq] at hv ⊢
      exact ih v hv

/-- `Class.version` finds only generations up to the one in force. -/
theorem le_of_version (h : c.Loaded) {generation : Nat} {v : ClassVersion}
    (hv : c.version generation = some v) : generation ≤ c.generation := by
  have hmem := List.mem_of_find?_eq_some hv
  have heq := List.find?_some hv
  rw [beq_iff_eq] at heq
  rcases List.mem_cons.mp hmem with rfl | hmem
  · exact Nat.le_of_eq heq.symm
  · exact heq ▸ Nat.le_of_lt (h.previous_lt v hmem)

end Loaded

/-- `Class.version` finds the version in force under its generation. -/
theorem version_generation (c : Class) : c.version c.generation = some c.current := by
  rw [version, List.find?_cons, generation, beq_self_eq_true]

/-- `Class.purge` leaves no other version to be found. -/
private theorem version_purge_of_ne {c : Class} {generation : Nat} (hne : c.generation ≠ generation) :
    c.purge.version generation = none := by
  have hfalse : (c.current.generation == generation) = false := beq_false_of_ne hne
  rw [version, purge, List.find?_cons, hfalse]
  rfl

/-- A `Class.change` that does not purge a replaced version leaves what is found of old generations. -/
theorem version_change {c : Class} {generation : Nat} (hle : generation ≤ c.generation)
    {x : ClassChange} (hkept : x = .purge → c.generation = generation) :
    (c.change x).version generation = c.version generation := by
  rcases change_cases c x with ⟨_, _, _, heq⟩ | ⟨hx, heq⟩ | ⟨-, heq⟩
  · -- The new version has a later generation
    have hfalse : (c.generation + 1 == generation) = false := beq_false_of_ne (by omega)
    rw [heq, version, List.find?_cons, hfalse]
    rfl
  · -- A purge keeps the version in force
    subst hx
    rw [heq, ← hkept rfl]
    exact (version_generation c.purge).trans (version_generation c).symm
  · rw [heq]

/-- `Class.evolve` brings no version back that is not found under an old generation. -/
private theorem version_evolve_of_none {c : Class} {generation : Nat} (hle : generation ≤ c.generation)
    (hnone : c.version generation = none) (history : List ClassChange) :
    (c.evolve history).version generation = none := by
  induction history generalizing c with
  | nil => exact hnone
  | cons x history ih =>
    refine ih (Nat.le_trans hle (c.generation_le_change x)) ?_
    -- The version in force is always found, so the generation is an older one
    have hne : c.generation ≠ generation := by
      rintro rfl
      rw [version_generation] at hnone
      exact nomatch hnone
    by_cases hpurge : x = .purge
    · subst hpurge
      exact version_purge_of_ne hne
    · rw [version_change hle fun hx => absurd hx hpurge, hnone]

/-- `Class.evolve` leaves what is found of an old generation until a purge after its replacement. -/
theorem version_evolve_of_kept {c : Class} {generation : Nat} (hle : generation ≤ c.generation)
    {history : List ClassChange} (hkept : ¬c.PurgedSince generation history) :
    (c.evolve history).version generation = c.version generation := by
  induction history generalizing c with
  | nil => rfl
  | cons x history ih =>
    have hrest : ¬(c.change x).PurgedSince generation history :=
      fun ⟨before, after, heq, hne⟩ => hkept ⟨x :: before, after, heq ▸ rfl, hne⟩
    have hfirst : x = .purge → c.generation = generation := by
      rintro rfl
      exact Decidable.of_not_not fun hne => hkept ⟨[], history, rfl, hne⟩
    exact (ih (Nat.le_trans hle (c.generation_le_change x)) hrest).trans (version_change hle hfirst)

/-- `Class.evolve` leaves nothing of an old generation after a purge that follows its replacement. -/
theorem version_evolve_of_purged {c : Class} {generation : Nat} (hle : generation ≤ c.generation)
    {history : List ClassChange} (hpurged : c.PurgedSince generation history) :
    (c.evolve history).version generation = none := by
  obtain ⟨before, after, rfl, hne⟩ := hpurged
  have hbefore : generation ≤ (c.evolve before).generation :=
    Nat.le_trans hle (c.generation_le_evolve before)
  rw [evolve_append]
  exact version_evolve_of_none (c := (c.evolve before).purge) hbefore (version_purge_of_ne hne)
    after

/-- `Class.PurgedSince` does not hold of a version in force. -/
theorem not_purgedSince_of_current {c : Class} {generation : Nat}
    (hle : generation ≤ c.generation) {history : List ClassChange}
    (hcurrent : (c.evolve history).generation = generation) :
    ¬c.PurgedSince generation history := by
  rintro ⟨before, after, rfl, hne⟩
  -- Generations do not go back, so it was in force at the purge, too
  have hbefore := c.generation_le_evolve before
  have hafter := (c.evolve before).generation_le_evolve (.purge :: after)
  rw [← evolve_append, hcurrent] at hafter
  omega

/-- `Class.PurgedSince` does not hold before any change. -/
theorem not_purgedSince_nil (c : Class) (generation : Nat) : ¬c.PurgedSince generation [] :=
  fun ⟨before, after, heq, _⟩ =>
    List.append_ne_nil_of_right_ne_nil before (List.cons_ne_nil _ after) heq.symm

/-- `Class.PurgedSince` holds for good. -/
theorem PurgedSince.append {c : Class} {generation : Nat} {history : List ClassChange}
    (h : c.PurgedSince generation history) (more : List ClassChange) :
    c.PurgedSince generation (history ++ more) := by
  obtain ⟨before, after, rfl, hne⟩ := h
  exact ⟨before, after ++ more, by rw [List.append_assoc, List.cons_append], hne⟩

end Class

end StackTrace
