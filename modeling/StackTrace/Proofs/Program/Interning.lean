import Mathlib.Data.Finset.Card
import StackTrace.Proofs.Program.Numbering
import StackTrace.Proofs.Program.Symbols

/-!
# One symbol for each text

Whatever is interned with a table, and by whomever, two symbols of the table are the same object exactly if
their texts are equal.  Defining and redefining classes comes down to interning texts in a certain order
(`Class.define_interns`, `Class.redefine_interns`), also where it ends early, out of ordinals; so it is
enough to look at single texts.

`Interning` is a table with a record of what was asked of it: the texts that were interned, the symbols
that the table has given out, and those that were made without it.

## Key results

- `SymbolTable.Canonical.intern`: interning a text keeps identities apart
- `Interning.Sound.step`: what is kept by every request
- `Interning.canonical_of_run`: identity, lookup and size, after any number of requests
-/

namespace StackTrace

namespace SymbolTable

/-- Interns texts in order by `SymbolTable.intern`. -/
def internAll (t : SymbolTable) : List String → List Symbol × SymbolTable
  | [] => ([], t)
  | text :: texts =>
    let (symbol, t) := t.intern text
    let (symbols, t) := t.internAll texts
    (symbol :: symbols, t)

variable {t t' t'' : SymbolTable} {text : String} {texts : List String}

/-- `SymbolTable.internAll` takes one list after the other. -/
private theorem internAll_append (t : SymbolTable) (xs ys : List String) :
    t.internAll (xs ++ ys) =
      ((t.internAll xs).1 ++ ((t.internAll xs).2.internAll ys).1,
        ((t.internAll xs).2.internAll ys).2) := by
  induction xs generalizing t with
  | nil => rfl
  | cons x xs ih => simp only [List.cons_append, internAll, ih]

/-- `SymbolTable.intern?` takes a text that may be absent like a list of at most one. -/
private theorem intern?_eq_internAll (t : SymbolTable) (text : Option String) :
    ((t.intern? text).1.toList, (t.intern? text).2) = t.internAll text.toList := by
  cases text with
  | none => rfl
  | some text => rfl

/-! ## What a table knows -/

/-- The table has symbols for `texts` and no others, and no two texts have the same one. -/
structure Canonical (texts : List String) (t : SymbolTable) : Prop where
  interned_iff : ∀ text : String, t.interned[text]?.isSome = true ↔ text ∈ texts
  identity_lt : ∀ (text : String) (identity : Nat), t.interned[text]? = some identity → identity < t.next
  text_eq : ∀ (text other : String) (identity : Nat), t.interned[text]? = some identity →
    t.interned[other]? = some identity → text = other
  size_eq : t.size = texts.toFinset.card

/-- `SymbolTable.Canonical` holds of the empty table. -/
private theorem canonical_empty : Canonical [] empty where
  interned_iff := by
    intro text
    rw [empty, Std.HashMap.getElem?_empty]
    exact ⟨nofun, nofun⟩
  identity_lt := by
    intro text identity h
    rw [empty, Std.HashMap.getElem?_empty] at h
    exact nomatch h
  text_eq := by
    intro text other identity h
    rw [empty, Std.HashMap.getElem?_empty] at h
    exact nomatch h
  size_eq := Std.HashMap.size_empty

/-- For a text that has an identity `SymbolTable.intern` changes nothing. -/
private theorem intern_of_some {identity : Nat} (h : t.interned[text]? = some identity) :
    t.intern text = (⟨text, identity⟩, t) := by
  simp only [intern, h]

/-- A text that has no identity gets the next one from `SymbolTable.intern`. -/
private theorem intern_of_none (h : t.interned[text]? = none) :
    t.intern text =
      (⟨text, t.next⟩, { interned := t.interned.insert text t.next, next := t.next + 1 }) := by
  simp only [intern, h]

/-- `SymbolTable.intern` gives a text that is new an identity that no other text has. -/
theorem Canonical.intern (h : t.Canonical texts) (text : String) :
    (t.intern text).2.Canonical (texts ++ [text]) := by
  have hset : (texts ++ [text]).toFinset = insert text texts.toFinset := by
    rw [List.toFinset_append, List.toFinset_cons, List.toFinset_nil, Finset.union_comm]
    rfl
  cases hinterned : t.interned[text]? with
  | some identity =>
    have hmem : text ∈ texts := (h.interned_iff text).mp (by rw [hinterned]; rfl)
    rw [intern_of_some hinterned]
    refine ⟨fun other => ?_, h.identity_lt, h.text_eq, ?_⟩
    · rw [h.interned_iff other, List.mem_append, List.mem_singleton]
      exact ⟨.inl, fun hother => hother.elim id fun heq => heq ▸ hmem⟩
    · rw [hset, Finset.insert_eq_of_mem (List.mem_toFinset.mpr hmem)]
      exact h.size_eq
  | none =>
    have hnew : text ∉ texts := by
      rw [← h.interned_iff text, hinterned]
      exact Bool.false_ne_true
    have hkey : text ∉ t.interned := by
      rw [← Std.HashMap.isSome_getElem?_iff_mem, hinterned]
      exact Bool.false_ne_true
    rw [intern_of_none hinterned]
    refine ⟨fun other => ?_, fun other identity hother => ?_, fun other other' identity hother hother' => ?_,
      ?_⟩
    · rw [Std.HashMap.getElem?_insert, List.mem_append, List.mem_singleton]
      split
      · rename_i heq
        exact ⟨fun _ => .inr (beq_iff_eq.mp heq).symm, fun _ => rfl⟩
      · rename_i hne
        rw [h.interned_iff other]
        exact ⟨.inl, fun hother => hother.resolve_right fun heq => hne (beq_iff_eq.mpr heq.symm)⟩
    · simp only [Std.HashMap.getElem?_insert] at hother
      split at hother
      · cases hother
        exact Nat.lt_succ_self _
      · exact Nat.lt_succ_of_lt (h.identity_lt other identity hother)
    -- Two texts with one identity: both were there before, or both are the new one
    · simp only [Std.HashMap.getElem?_insert] at hother hother'
      split at hother
      · rename_i heq
        split at hother'
        · rename_i heq'
          exact (beq_iff_eq.mp heq).symm.trans (beq_iff_eq.mp heq')
        · cases hother
          exact absurd (h.identity_lt other' _ hother') (Nat.lt_irrefl _)
      · split at hother'
        · cases hother'
          exact absurd (h.identity_lt other _ hother) (Nat.lt_irrefl _)
        · exact h.text_eq other other' identity hother hother'
    · rw [size, Std.HashMap.size_insert, if_neg hkey, hset,
        Finset.card_insert_of_notMem (mt List.mem_toFinset.mp hnew), ← h.size_eq, size]

/-- `SymbolTable.free` does not change what the table has interned. -/
private theorem Canonical.free (h : t.Canonical texts) (text : String) : (t.free text).2.Canonical texts :=
  ⟨h.interned_iff, fun other identity hother => Nat.lt_succ_of_lt (h.identity_lt other identity hother),
    h.text_eq, h.size_eq⟩

/-- `SymbolTable.internAll` keeps `SymbolTable.Canonical`, with the new texts. -/
private theorem Canonical.internAll (h : t.Canonical texts) (new : List String) :
    (t.internAll new).2.Canonical (texts ++ new) := by
  induction new generalizing t texts with
  | nil =>
    rw [List.append_nil]
    exact h
  | cons text new ih =>
    rw [List.append_cons]
    exact ih (h.intern text)

/-! ## How a table changes -/

/-- `Grows`, and an identity that a text has got is one that was not in use. -/
structure Extends (t t' : SymbolTable) : Prop where
  grows : t.Grows t'
  next_le : t.next ≤ t'.next
  fresh : ∀ (text : String) (identity : Nat), t'.interned[text]? = some identity →
    t.interned[text]? = some identity ∨ t.next ≤ identity

/-- `SymbolTable.Extends` is reflexive. -/
theorem Extends.refl (t : SymbolTable) : t.Extends t := ⟨.refl t, Nat.le_refl _, fun _ _ => .inl⟩

/-- `SymbolTable.Extends` is transitive. -/
theorem Extends.trans (h : t.Extends t') (h' : t'.Extends t'') : t.Extends t'' where
  grows := h.grows.trans h'.grows
  next_le := h.next_le.trans h'.next_le
  fresh := by
    intro text identity hidentity
    rcases h'.fresh text identity hidentity with hidentity | hle
    · exact h.fresh text identity hidentity
    · exact .inr (h.next_le.trans hle)

/-- `SymbolTable.intern` gives out an old identity, or one that is not below the next. -/
private theorem extends_intern (t : SymbolTable) (text : String) : t.Extends (t.intern text).2 := by
  refine ⟨t.grows_intern text, ?_, fun other identity hother => ?_⟩
  · cases hinterned : t.interned[text]? with
    | some identity => rw [intern_of_some hinterned]
    | none =>
      rw [intern_of_none hinterned]
      exact Nat.le_succ _
  -- An identity that is in the table afterwards was there before, or is the next one
  · cases hinterned : t.interned[text]? with
    | some identity =>
      rw [intern_of_some hinterned] at hother
      exact .inl hother
    | none =>
      simp only [intern_of_none hinterned, Std.HashMap.getElem?_insert] at hother
      split at hother
      · cases hother
        exact .inr (Nat.le_refl _)
      · exact .inl hother

/-- `SymbolTable.internAll` gives out old identities, or ones that are not below the next. -/
private theorem extends_internAll (t : SymbolTable) (texts : List String) :
    t.Extends (t.internAll texts).2 := by
  induction texts generalizing t with
  | nil => exact .refl t
  | cons text texts ih => exact (t.extends_intern text).trans (ih _)

/-- `SymbolTable.probe` finds the symbols of interned texts. -/
private theorem probe_of_mem_internAll {s : Symbol} (h : s ∈ (t.internAll texts).1) :
    (t.internAll texts).2.probe s.text = some s := by
  induction texts generalizing t with
  | nil => exact nomatch h
  | cons text texts ih =>
    rcases List.mem_cons.mp h with hs | h
    · obtain rfl : s = (t.intern text).1 := hs
      apply ((t.intern text).2.extends_internAll texts).grows
      rw [text_intern, probe_intern]
    · exact ih h

end SymbolTable

/-! ## Classes -/

/-- The texts that `MethodSpec.load` interns, in order. -/
def MethodSpec.texts (spec : MethodSpec) : List String := [spec.name, spec.signature]

/-- The symbols that `MethodSpec.load` obtained for the method. -/
def Method.symbols (m : Method) : List Symbol := [m.name, m.signature]

/-- The texts of a definition: those of its methods first, then those of the class itself. -/
def ClassDefinition.texts (d : ClassDefinition) : List String :=
  d.methods.flatMap MethodSpec.texts ++
    ([d.name] ++ d.loader.toList ++ (d.inModule.map Prod.fst).toList ++
      (d.inModule.bind Prod.snd).toList ++ d.sourceFile.toList)

/-- The texts that `Class.define` interns.  If it is refused, that happens behind the methods that have
    a place. -/
def ClassDefinition.interned (d : ClassDefinition) : List String :=
  if d.methods.length ≤ 65535 then d.texts else (d.methods.take 65536).flatMap MethodSpec.texts

/-- The listed methods up to the first for which no ordinal is left, if the next unused one is `next`.
    A name and signature that the version has need none. -/
def ClassVersion.numbered (v : ClassVersion) (next : Nat) : List MethodSpec → List MethodSpec
  | [] => []
  | spec :: specs =>
    if v.methods.any (·.key == spec.key) then spec :: v.numbered next specs
    else if next < 65535 then spec :: v.numbered (next + 1) specs
    else []

/-- The symbols that a version is made of. -/
def ClassVersion.symbols (v : ClassVersion) : List Symbol :=
  v.methods.toList.flatMap Method.symbols ++ v.sourceFile.toList

namespace Class

/-- The texts that `Class.redefine` interns.  If it is refused, that happens before the first method for
    which no ordinal is left. -/
def interned (c : Class) (methods : List MethodSpec) (sourceFile : Option String) : List String :=
  let numbered := c.current.numbered c.nextOrdinal methods
  numbered.flatMap MethodSpec.texts ++
    if numbered.length = methods.length then sourceFile.toList else []

/-- The symbols of a class that has just been defined. -/
def symbols (c : Class) : List Symbol :=
  c.current.methods.toList.flatMap Method.symbols ++
    ([c.name] ++ c.loader.toList ++ (c.inModule.map (·.name)).toList ++
      (c.inModule.bind (·.version)).toList ++ c.current.sourceFile.toList)

variable {t t' : SymbolTable} {holder : ClassId} {loaded methods : Array Method}
  {specs : List MethodSpec}

/-- `MethodSpec.load` makes a method by interning its texts. -/
private theorem load_eq_internAll (spec : MethodSpec) (holder : ClassId) (generation place ordinal : Nat)
    (t : SymbolTable) :
    ((spec.load holder generation place ordinal t).1.symbols,
      (spec.load holder generation place ordinal t).2) = t.internAll spec.texts := rfl

/-- `Class.loadFirst` interns the texts of the methods that it has room for. -/
private theorem snd_loadFirst (holder : ClassId) (loaded : Array Method) (t : SymbolTable)
    (specs : List MethodSpec) (hle : loaded.size ≤ 65536) :
    (loadFirst holder loaded t specs).2 =
      (t.internAll ((specs.take (65536 - loaded.size)).flatMap MethodSpec.texts)).2 := by
  -- Induction on the methods; the one behind the last ordinal is not made, and none after it
  induction specs generalizing loaded t with
  | nil =>
    rw [List.take_nil]
    rfl
  | cons spec specs ih =>
    unfold loadFirst
    by_cases hlast : loaded.size ≤ 65535
    · have hordinal : ordinalAt loaded.size = .ok loaded.size := if_pos hlast
      have hroom : 65536 - loaded.size = 65536 - (loaded.size + 1) + 1 := by omega
      rw [hordinal, hroom, List.take_succ_cons, List.flatMap_cons, SymbolTable.internAll_append,
        ← load_eq_internAll spec holder 0 loaded.size loaded.size t]
      dsimp only
      rw [ih, Array.size_push]
      rw [Array.size_push]
      omega
    · have hordinal : ordinalAt loaded.size = .error .tooManyMethods := if_neg hlast
      have hfull : 65536 - loaded.size = 0 := by omega
      rw [hordinal, hfull]
      rfl

/-- `Class.loadFirst` makes methods of the symbols that it has interned. -/
private theorem symbols_loadFirst (h : loadFirst holder loaded t specs = (.ok methods, t')) :
    methods.toList.flatMap Method.symbols =
      loaded.toList.flatMap Method.symbols ++
        (t.internAll (specs.flatMap MethodSpec.texts)).1 := by
  induction specs generalizing loaded t with
  | nil =>
    cases h
    exact (List.append_nil _).symm
  | cons spec specs ih =>
    unfold loadFirst at h
    split at h
    · exact nomatch h
    · rename_i ordinal _
      rw [ih h, List.flatMap_cons, SymbolTable.internAll_append,
        ← load_eq_internAll spec holder 0 loaded.size ordinal t, Array.toList_push,
        List.flatMap_append, List.append_assoc]
      rfl

/-- `Class.define` has only made methods if it is refused. -/
private theorem snd_define_of_refused {d : ClassDefinition} {id : ClassId} {v : Violation}
    (h : define d id t = (.error v, t')) : t' = (loadFirst id #[] t d.methods).2 := by
  unfold define at h
  split at h
  · rename_i hload
    cases h
    rw [hload]
  · rename_i hload
    split at h
    · cases h
      rw [hload]
    · exact nomatch h

/-- `Class.define` interns these texts, and the symbols of the class come of it. -/
theorem define_interns (d : ClassDefinition) (id : ClassId) (t : SymbolTable) :
    (define d id t).2 = (t.internAll d.interned).2 ∧
      ∀ c, (define d id t).1 = .ok c → c.symbols = (t.internAll d.interned).1 := by
  have hafter := snd_loadFirst id #[] t d.methods (Nat.zero_le _)
  rw [Array.size_empty, Nat.sub_zero] at hafter
  -- With room for the methods all texts are interned, and without it those of the methods alone
  by_cases hroom : d.methods.length ≤ 65535
  · have hle : d.methods.length ≤ 65536 := by omega
    obtain ⟨methods, t₁, hload, hsize⟩ := loadFirst_of_le id t hle
    have hordinal : ordinalAt methods.size = .ok methods.size := if_pos (by omega)
    have hsymbols : methods.toList.flatMap Method.symbols = _ := symbols_loadFirst hload
    rw [hload, List.take_of_length_le hle] at hafter
    obtain rfl : t₁ = _ := hafter
    obtain ⟨name, super, loader, inModule, sourceFile, specs⟩ := d
    rw [ClassDefinition.interned, if_pos hroom, ClassDefinition.texts]
    dsimp only at hload hsymbols ⊢
    simp only [SymbolTable.internAll_append, ← SymbolTable.intern?_eq_internAll]
    unfold define
    rw [hload]
    dsimp only
    rw [hordinal]
    -- What is left is that the parts of the class are those that were interned, one after the other
    refine ⟨?_, fun c hc => ?_⟩
    · cases inModule <;> rfl
    · cases hc
      rw [symbols, hsymbols]
      cases inModule <;> rfl
  · obtain ⟨t', hrefused⟩ := define_of_no_room (Nat.lt_of_not_le hroom) id t
    rw [ClassDefinition.interned, if_neg hroom, ← hafter, hrefused]
    exact ⟨snd_define_of_refused hrefused, nofun⟩

section Redefining

variable {v : ClassVersion} {spec : MethodSpec} {next ordinal : Nat}

/-- `ClassVersion.numbered` goes past a method that is known. -/
private theorem numbered_cons_of_known (h : v.ordinals[spec.key]? = some ordinal) (next : Nat)
    (specs : List MethodSpec) :
    v.numbered next (spec :: specs) = spec :: v.numbered next specs := by
  have hdeclares : v.Declares spec.key := by
    rw [← ClassVersion.getElem?_ordinals_ne_none, h]
    exact nofun
  obtain ⟨m, hm, hkey⟩ := hdeclares
  have hany : v.methods.any (·.key == spec.key) = true :=
    Array.any_eq_true'.mpr ⟨m, hm, beq_iff_eq.mpr hkey⟩
  rw [ClassVersion.numbered, if_pos hany]

/-- `ClassVersion.numbered` takes an ordinal for a method that is not known, or stops. -/
private theorem numbered_cons_of_unknown (h : v.ordinals[spec.key]? = none) (next : Nat)
    (specs : List MethodSpec) :
    v.numbered next (spec :: specs) =
      if next < 65535 then spec :: v.numbered (next + 1) specs else [] := by
  have hany : ¬v.methods.any (·.key == spec.key) = true := by
    rw [Array.any_eq_true']
    rintro ⟨m, hm, hkey⟩
    exact ClassVersion.getElem?_ordinals_eq_none.mp h ⟨m, hm, beq_iff_eq.mp hkey⟩
  rw [ClassVersion.numbered, if_neg hany]

/-- `Class.loadLater` interns the texts of the methods that it finds ordinals for. -/
private theorem snd_loadLater (holder : ClassId) (generation : Nat) (v : ClassVersion)
    (loaded : Array Method) (next : Nat) (t : SymbolTable) (specs : List MethodSpec) :
    (loadLater holder generation v.ordinals loaded next t specs).2 =
      (t.internAll ((v.numbered next specs).flatMap MethodSpec.texts)).2 := by
  -- Induction on the methods, which are known, get the next ordinal, or are the end of it
  induction specs generalizing loaded next t with
  | nil => rfl
  | cons spec specs ih =>
    unfold loadLater
    split
    · rename_i ordinal hknown
      rw [numbered_cons_of_known hknown, List.flatMap_cons, SymbolTable.internAll_append,
        ← load_eq_internAll spec holder generation loaded.size ordinal t]
      exact ih _ _ _
    · rename_i hknown
      rw [numbered_cons_of_unknown hknown]
      by_cases hroom : next < 65535
      · have hordinal : ordinalAt (next + 1) = .ok (next + 1) := if_pos hroom
        rw [hordinal, if_pos hroom, List.flatMap_cons, SymbolTable.internAll_append,
          ← load_eq_internAll spec holder generation loaded.size next t]
        exact ih _ _ _
      · have hordinal : ordinalAt (next + 1) = .error .tooManyMethods := if_neg hroom
        rw [hordinal, if_neg hroom]
        rfl

/-- `Class.loadLater` makes methods of the symbols that it has interned, if all get ordinals. -/
private theorem symbols_loadLater {generation after : Nat}
    (h : loadLater holder generation v.ordinals loaded next t specs = (.ok (methods, after), t')) :
    v.numbered next specs = specs ∧
      methods.toList.flatMap Method.symbols =
        loaded.toList.flatMap Method.symbols ++
          (t.internAll (specs.flatMap MethodSpec.texts)).1 := by
  induction specs generalizing loaded next t with
  | nil =>
    cases h
    exact ⟨rfl, (List.append_nil _).symm⟩
  | cons spec specs ih =>
    -- A method is made in the same way whether or not its ordinal was known
    have hmade : ∀ {ordinal next' : Nat}, loadLater holder generation v.ordinals
        (loaded.push (spec.load holder generation loaded.size ordinal t).1) next'
        (spec.load holder generation loaded.size ordinal t).2 specs = (.ok (methods, after), t') →
        v.numbered next' specs = specs ∧ methods.toList.flatMap Method.symbols =
          loaded.toList.flatMap Method.symbols ++
            (t.internAll ((spec :: specs).flatMap MethodSpec.texts)).1 := by
      intro ordinal next' hrest
      obtain ⟨hnumbered, hsymbols⟩ := ih hrest
      refine ⟨hnumbered, ?_⟩
      rw [hsymbols, List.flatMap_cons, SymbolTable.internAll_append,
        ← load_eq_internAll spec holder generation loaded.size ordinal t, Array.toList_push,
        List.flatMap_append, List.append_assoc]
      rfl
    unfold loadLater at h
    split at h
    · rename_i ordinal hknown
      obtain ⟨hnumbered, hsymbols⟩ := hmade h
      rw [numbered_cons_of_known hknown, hnumbered]
      exact ⟨rfl, hsymbols⟩
    · rename_i hknown
      split at h
      · cases h
      · rename_i after' hordinal
        have hroom : next < 65535 := by
          unfold ordinalAt at hordinal
          split at hordinal
          · omega
          · cases hordinal
        obtain rfl := ordinalAt_ok hordinal
        obtain ⟨hnumbered, hsymbols⟩ := hmade h
        rw [numbered_cons_of_unknown hknown, if_pos hroom, hnumbered]
        exact ⟨rfl, hsymbols⟩

/-- `ClassVersion.numbered` leaves methods out if `Class.loadLater` runs out of ordinals. -/
private theorem length_numbered_lt {generation : Nat} {e : Violation}
    (h : loadLater holder generation v.ordinals loaded next t specs = (.error e, t')) :
    (v.numbered next specs).length < specs.length := by
  -- Induction on the methods, as far as the one that is refused
  induction specs generalizing loaded next t with
  | nil => exact nomatch h
  | cons spec specs ih =>
    unfold loadLater at h
    split at h
    · rename_i ordinal hknown
      rw [numbered_cons_of_known hknown]
      exact Nat.succ_lt_succ (ih h)
    · rename_i hknown
      rw [numbered_cons_of_unknown hknown]
      by_cases hroom : next < 65535
      · have hordinal : ordinalAt (next + 1) = .ok (next + 1) := if_pos hroom
        rw [hordinal] at h
        rw [if_pos hroom]
        exact Nat.succ_lt_succ (ih h)
      · rw [if_neg hroom]
        exact Nat.succ_pos _

/-- `Class.redefine` interns these texts, and the symbols of the new version come of it. -/
theorem redefine_interns (c : Class) (specs : List MethodSpec) (sourceFile : Option String)
    (t : SymbolTable) :
    (c.redefine specs sourceFile t).2 = (t.internAll (c.interned specs sourceFile)).2 ∧
      ∀ c', (c.redefine specs sourceFile t).1 = .ok c' →
        c'.current.symbols = (t.internAll (c.interned specs sourceFile)).1 := by
  have hafter := snd_loadLater c.id (c.current.generation + 1) c.current #[] c.nextOrdinal t specs
  unfold redefine
  dsimp only
  split
  -- Refused: some method has no ordinal, and the source file is not interned
  · rename_i e t' hload
    have hlt := length_numbered_lt hload
    rw [hload] at hafter
    rw [interned, if_neg (Nat.ne_of_lt hlt), List.append_nil]
    exact ⟨hafter, nofun⟩
  · rename_i methods nextOrdinal t' hload
    obtain ⟨hnumbered, hsymbols⟩ := symbols_loadLater hload
    rw [hload, hnumbered] at hafter
    obtain rfl : t' = _ := hafter
    rw [interned, hnumbered, if_pos rfl, SymbolTable.internAll_append,
      ← SymbolTable.intern?_eq_internAll]
    refine ⟨rfl, fun c' hc' => ?_⟩
    cases hc'
    rw [ClassVersion.symbols, hsymbols]
    rfl

end Redefining

end Class

/-! ## Any number of requests -/

/-- What is asked of a table. -/
inductive SymbolRequest where
  | intern (text : String)
  | probe (text : String)
  /-- Makes a free-standing symbol. -/
  | free (text : String)
  | define (d : ClassDefinition) (id : ClassId)
  | redefine (c : Class) (methods : List MethodSpec) (sourceFile : Option String)

namespace SymbolRequest

/-- The texts that a request interns. -/
def interned : SymbolRequest → List String
  | intern text => [text]
  | probe _ | free _ => []
  | define d _ => d.interned
  | redefine c methods sourceFile => c.interned methods sourceFile

/-- The texts that a request makes free-standing symbols of. -/
def freed : SymbolRequest → List String
  | free text => [text]
  | intern _ | probe _ | define _ _ | redefine _ _ _ => []

end SymbolRequest

/-- A table and what has been asked of it. -/
structure Interning where
  table : SymbolTable
  /-- The texts that were interned, with repetitions. -/
  texts : List String
  /-- The symbols that came from the table: those asked for, and those of classes. -/
  shared : List Symbol
  /-- The free-standing symbols. -/
  free : List Symbol

namespace Interning

/-- Nothing has been asked yet. -/
def empty : Interning := ⟨SymbolTable.empty, [], [], []⟩

/-- The symbols that were obtained with what was asked for, by `symbols` of it. -/
def obtained {α : Type} (symbols : α → List Symbol) : Except Violation α → List Symbol
  | .error _ => []
  | .ok a => symbols a

/-- What is known after one more `SymbolRequest`. -/
def step (s : Interning) : SymbolRequest → Interning
  | .intern text =>
    let (symbol, table) := s.table.intern text
    { s with table, texts := s.texts ++ [text], shared := s.shared ++ [symbol] }
  | .probe text => { s with shared := s.shared ++ (s.table.probe text).toList }
  | .free text =>
    let (symbol, table) := s.table.free text
    { s with table, free := s.free ++ [symbol] }
  | .define d id =>
    let (made, table) := Class.define d id s.table
    { s with
      table
      texts := s.texts ++ d.interned
      shared := s.shared ++ obtained Class.symbols made }
  | .redefine c methods sourceFile =>
    let (made, table) := c.redefine methods sourceFile s.table
    { s with
      table
      texts := s.texts ++ c.interned methods sourceFile
      shared := s.shared ++ obtained (·.current.symbols) made }

/-- A new table after `Interning.step` of some requests. -/
def run (requests : List SymbolRequest) : Interning := requests.foldl step empty

/-- What holds between two requests. -/
structure Sound (s : Interning) : Prop where
  canonical : s.table.Canonical s.texts
  /-- The symbols from the table are found there. -/
  shared : ∀ a ∈ s.shared, s.table.probe a.text = some a
  /-- No text has the identity of a free-standing symbol, and none is going to get it. -/
  free_lt : ∀ a ∈ s.free, a.identity < s.table.next
  free_ne : ∀ a ∈ s.free, ∀ text : String, s.table.interned[text]? ≠ some a.identity
  distinct : s.free.Pairwise fun a b => a.identity ≠ b.identity

variable {s : Interning}

/-- `Sound` finds a symbol that was obtained under its text. -/
private theorem Sound.getElem?_interned (h : s.Sound) {a : Symbol} (ha : a ∈ s.shared) :
    s.table.interned[a.text]? = some a.identity := by
  obtain ⟨identity, hidentity, heq⟩ := Option.map_eq_some_iff.mp (h.shared a ha)
  rw [hidentity, ← heq]

/-- `Interning.empty` is sound. -/
private theorem sound_empty : empty.Sound :=
  ⟨SymbolTable.canonical_empty, nofun, nofun, nofun, List.Pairwise.nil⟩

/-- `SymbolTable.internAll` keeps `Sound`: the symbols obtained before and those that come of it are
    found, and free-standing ones are not. -/
private theorem Sound.internAll (h : s.Sound) (texts : List String) (new : List Symbol)
    (hnew : ∀ a ∈ new, a ∈ (s.table.internAll texts).1) :
    Sound ⟨(s.table.internAll texts).2, s.texts ++ texts, s.shared ++ new, s.free⟩ where
  canonical := h.canonical.internAll texts
  shared := by
    intro a ha
    rcases List.mem_append.mp ha with ha | ha
    · exact (s.table.extends_internAll texts).grows _ _ (h.shared a ha)
    · exact SymbolTable.probe_of_mem_internAll (hnew a ha)
  free_lt := fun a ha =>
    Nat.lt_of_lt_of_le (h.free_lt a ha) (s.table.extends_internAll texts).next_le
  free_ne := by
    intro a ha text hidentity
    rcases (s.table.extends_internAll texts).fresh text _ hidentity with hidentity | hle
    · exact h.free_ne a ha text hidentity
    · exact absurd (h.free_lt a ha) (Nat.not_lt_of_le hle)
  distinct := h.distinct

/-- `SymbolTable.free` gives a free-standing symbol an identity that nothing else has. -/
private theorem Sound.free (h : s.Sound) (text : String) : (s.step (.free text)).Sound where
  canonical := h.canonical.free text
  shared := h.shared
  free_lt := by
    intro a ha
    rcases List.mem_append.mp ha with ha | ha
    · exact Nat.lt_succ_of_lt (h.free_lt a ha)
    · obtain rfl := List.mem_singleton.mp ha
      exact Nat.lt_succ_self _
  free_ne := by
    intro a ha other hidentity
    rcases List.mem_append.mp ha with ha | ha
    · exact h.free_ne a ha other hidentity
    · obtain rfl := List.mem_singleton.mp ha
      exact absurd (h.canonical.identity_lt other _ hidentity) (Nat.lt_irrefl _)
  -- The new one comes behind all others, whose identities are below the next
  distinct := by
    refine List.pairwise_append.mpr ⟨h.distinct, List.pairwise_singleton _ _, fun a ha b hb => ?_⟩
    obtain rfl := List.mem_singleton.mp hb
    exact Nat.ne_of_lt (h.free_lt a ha)

/-- `Sound` survives making something of symbols, with its texts interned on the way: if that went well,
    these are its symbols. -/
private theorem Sound.made {α : Type} (h : s.Sound) {made : Except Violation α × SymbolTable}
    {symbols : α → List Symbol} {texts : List String}
    (hmade : made.2 = (s.table.internAll texts).2 ∧
      ∀ a, made.1 = .ok a → symbols a = (s.table.internAll texts).1) :
    Sound ⟨made.2, s.texts ++ texts, s.shared ++ obtained symbols made.1, s.free⟩ := by
  obtain ⟨result, table⟩ := made
  obtain ⟨rfl, hsymbols⟩ := hmade
  apply h.internAll
  intro symbol hsymbol
  cases result with
  | error v => exact nomatch hsymbol
  | ok a =>
    rw [← hsymbols a rfl]
    exact hsymbol

/-- `Interning.step` keeps `Sound`. -/
theorem Sound.step (h : s.Sound) (request : SymbolRequest) : (s.step request).Sound := by
  cases request with
  | intern text => exact h.internAll [text] [(s.table.intern text).1] fun a ha => ha
  | probe text =>
    refine ⟨h.canonical, fun a ha => ?_, h.free_lt, h.free_ne, h.distinct⟩
    rcases List.mem_append.mp ha with ha | ha
    · exact h.shared a ha
    · have hfound : s.table.probe text = some a := Option.mem_toList.mp ha
      obtain ⟨identity, -, rfl⟩ := Option.map_eq_some_iff.mp hfound
      exact hfound
  | free text => exact h.free text
  | define d id => exact h.made (Class.define_interns d id s.table)
  | redefine c methods sourceFile => exact h.made (c.redefine_interns methods sourceFile s.table)

/-- `Interning.run` leads to `Sound` states only. -/
theorem sound_run (requests : List SymbolRequest) : (run requests).Sound := by
  have hfold : ∀ s : Interning, s.Sound → (requests.foldl step s).Sound := by
    induction requests with
    | nil => exact fun s h => h
    | cons request requests ih => exact fun s h => ih (s.step request) (h.step request)
  exact hfold empty sound_empty

/-- `Interning.run` collects in a list that every request adds to what all of them have added. -/
private theorem run_eq_flatMap {α : Type} {f : Interning → List α} {g : SymbolRequest → List α}
    (hstep : ∀ s request, f (step s request) = f s ++ g request) (requests : List SymbolRequest) :
    f (run requests) = f empty ++ requests.flatMap g := by
  have hfold : ∀ s : Interning, f (requests.foldl step s) = f s ++ requests.flatMap g := by
    induction requests with
    | nil => exact fun s => (List.append_nil _).symm
    | cons request requests ih =>
      intro s
      rw [List.foldl_cons, ih, hstep, List.append_assoc, List.flatMap_cons]
  exact hfold empty

/-- `Interning.run` has interned the texts of its requests. -/
theorem texts_run (requests : List SymbolRequest) :
    (run requests).texts = requests.flatMap SymbolRequest.interned := by
  refine run_eq_flatMap (fun s request => ?_) requests
  cases request <;> simp [step, SymbolRequest.interned]

/-- `Interning.run` has made free-standing symbols of the texts that its requests ask for. -/
theorem texts_free_run (requests : List SymbolRequest) :
    (run requests).free.map Symbol.text = requests.flatMap SymbolRequest.freed := by
  refine run_eq_flatMap (f := fun s => s.free.map Symbol.text) (fun s request => ?_) requests
  cases request <;> simp [step, SymbolRequest.freed, SymbolTable.free]

/-- `Symbol.identical` of symbols from the table says that their texts are equal. -/
private theorem Sound.identical_iff (h : s.Sound) {a b : Symbol} (ha : a ∈ s.shared) (hb : b ∈ s.shared) :
    a.identical b = true ↔ a.text = b.text := by
  have hidentical : a.identical b = true ↔ a.identity = b.identity := beq_iff_eq
  rw [hidentical]
  constructor
  · intro heq
    refine h.canonical.text_eq a.text b.text a.identity (h.getElem?_interned ha) ?_
    rw [heq]
    exact h.getElem?_interned hb
  · intro heq
    have hfound := h.getElem?_interned ha
    rw [heq, h.getElem?_interned hb] at hfound
    exact (Option.some.inj hfound).symm

/-- `Sound` keeps free-standing symbols apart from those of the table. -/
private theorem Sound.identity_ne (h : s.Sound) {a b : Symbol} (ha : a ∈ s.free) (hb : b ∈ s.shared) :
    a.identity ≠ b.identity := by
  intro heq
  apply h.free_ne a ha b.text
  rw [heq]
  exact h.getElem?_interned hb

/-- `Interning.run` of any number of requests to one table.  Two symbols from the table are
    `Symbol.identical` exactly if their texts are equal, and each is what `SymbolTable.probe` finds for
    its text; a free-standing symbol has its text, and is no other free-standing symbol and no symbol
    from the table; the table finds a text exactly if it has been interned, a look-up leaves it as it
    is, and its size is the number of texts interned, each counted once. -/
theorem canonical_of_run (requests : List SymbolRequest) :
    let s := run requests
    let texts := requests.flatMap SymbolRequest.interned
    (∀ a ∈ s.shared, ∀ b ∈ s.shared, a.identical b = true ↔ a.text = b.text) ∧
    (∀ a ∈ s.shared, s.table.probe a.text = some a) ∧
    s.free.map Symbol.text = requests.flatMap SymbolRequest.freed ∧
    s.free.Pairwise (fun a b => a.identical b = false ∧ b.identical a = false) ∧
    (∀ a ∈ s.free, ∀ b ∈ s.shared, a.identical b = false ∧ b.identical a = false) ∧
    (∀ text : String, (s.table.probe text).isSome = true ↔ text ∈ texts) ∧
    (∀ text : String, (s.step (.probe text)).table = s.table) ∧
    s.table.size = texts.toFinset.card := by
  intro s texts
  have h : s.Sound := sound_run requests
  have htexts : s.texts = texts := texts_run requests
  have hdifferent : ∀ {a b : Symbol}, a.identity ≠ b.identity →
      a.identical b = false ∧ b.identical a = false := fun hne =>
    ⟨beq_eq_false_iff_ne.mpr hne, beq_eq_false_iff_ne.mpr hne.symm⟩
  -- What `Sound` says of the state that the run leads to, part by part
  refine ⟨fun a ha b hb => h.identical_iff ha hb, h.shared, texts_free_run requests,
    h.distinct.imp hdifferent, fun a ha b hb => hdifferent (h.identity_ne ha hb), fun text => ?_,
    fun text => rfl, ?_⟩
  · rw [← htexts, ← h.canonical.interned_iff text, SymbolTable.probe, Option.isSome_map]
  · rw [← htexts]
    exact h.canonical.size_eq

/-- `canonical_of_run` for a text that was interned before a class with a method of that name was
    defined, with a free-standing symbol of it made in between. -/
theorem canonical_of_run_method :
    let requests : List SymbolRequest :=
      [.intern "run", .free "run", .define { name := "app/Main", methods := [{ name := "run" }] } ⟨0⟩]
    let s := run requests
    s.shared = [⟨"run", 0⟩, ⟨"run", 0⟩, ⟨"()V", 2⟩, ⟨"app/Main", 3⟩] ∧ s.free = [⟨"run", 1⟩] ∧
      ((⟨"run", 0⟩ : Symbol).identical ⟨"run", 0⟩ = true ↔ "run" = "run") ∧
      (⟨"run", 1⟩ : Symbol).sameText ⟨"run", 0⟩ = true ∧
      (⟨"run", 1⟩ : Symbol).identical ⟨"run", 0⟩ = false ∧
      s.table.probe "run" = some ⟨"run", 0⟩ ∧
      s.table.size = 3 := by
  intro requests s
  -- The two lists are evaluated, and the theorem tells the rest of them
  have hshared : s.shared = [⟨"run", 0⟩, ⟨"run", 0⟩, ⟨"()V", 2⟩, ⟨"app/Main", 3⟩] := by
    simp [s, requests, run, step, empty, SymbolTable.intern, SymbolTable.empty, SymbolTable.free,
      SymbolTable.intern?, obtained, Class.define, Class.loadFirst, MethodSpec.load, ordinalAt,
      Class.symbols, Method.symbols]
  have hfree : s.free = [⟨"run", 1⟩] := by
    simp [s, requests, run, step, empty, SymbolTable.intern, SymbolTable.empty, SymbolTable.free]
  have hmem : (⟨"run", 0⟩ : Symbol) ∈ s.shared := by simp [hshared]
  have hmem_free : (⟨"run", 1⟩ : Symbol) ∈ s.free := by simp [hfree]
  obtain ⟨hiff, hprobe, -, -, hne, -, -, hsize⟩ := canonical_of_run requests
  exact ⟨hshared, hfree, hiff _ hmem _ hmem, by decide, (hne _ hmem_free _ hmem).1, hprobe _ hmem,
    hsize.trans (by decide)⟩

end Interning

end StackTrace
