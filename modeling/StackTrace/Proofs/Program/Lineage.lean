import StackTrace.Proofs.Program.Numbering
import StackTrace.Proofs.Program.Versions

/-!
# Ordinals over the history of a class

A class has had more versions than it keeps, and a redefinition knows only the version before it.
Still no ordinal ever comes to stand for methods of different names or signatures.

## Key results

- `Class.Lineage`: a class with all versions that it has had
- `Class.Lineage.key_eq_of_ordinal_eq`: an ordinal stands for one name and signature for good
- `Class.Lineage.ordinals_stable`: what becomes of generations and ordinals in any history
-/

namespace StackTrace

namespace Class

/-- What has become of a class that has had certain versions, the latest first, through `Class.redefine`
    and `Class.purge`. -/
inductive Lineage : Class → List ClassVersion → Prop
  | define {d : ClassDefinition} {id : ClassId} {symbols symbols' : SymbolTable} {c : Class}
      (h : Class.define d id symbols = (.ok c, symbols')) : Lineage c [c.current]
  | redefine {c c' : Class} {versions : List ClassVersion} {methods : List MethodSpec}
      {sourceFile : Option String} {symbols symbols' : SymbolTable} (h : Lineage c versions)
      (hredefine : c.redefine methods sourceFile symbols = (.ok c', symbols')) :
      Lineage c' (c'.current :: versions)
  | purge {c : Class} {versions : List ClassVersion} (h : Lineage c versions) :
      Lineage c.purge versions

/-- `Class.Loaded` classes are those that have had some versions. -/
theorem loaded_iff_exists_lineage {c : Class} : c.Loaded ↔ ∃ versions, c.Lineage versions := by
  constructor
  · intro h
    induction h with
    | define h => exact ⟨_, .define h⟩
    | @change c h x ih =>
      obtain ⟨versions, hversions⟩ := ih
      -- A redefinition that is refused, and a purge, add no version
      cases x with
      | purge => exact ⟨versions, hversions.purge⟩
      | redefine methods sourceFile symbols =>
        simp only [change]
        split
        · rename_i hredefine
          exact ⟨_, hversions.redefine hredefine⟩
        · exact ⟨versions, hversions⟩
  · rintro ⟨versions, h⟩
    induction h with
    | define h => exact .define h
    | @redefine c c' _ methods sourceFile symbols _ _ hredefine ih =>
      have hchange : c.change (.redefine methods sourceFile symbols) = c' := by
        simp only [change, hredefine]
      exact hchange ▸ ih.change _
    | purge _ ih => exact ih.change .purge

namespace Lineage

variable {c : Class} {versions : List ClassVersion}

/-- `Lineage` lists the versions that are kept first, as they are the latest ones. -/
theorem kept_prefix (h : c.Lineage versions) : c.current :: c.previous <+: versions := by
  induction h with
  | define hdefine =>
    obtain ⟨-, -, hnone, -⟩ := define_ok hdefine
    exact hnone ▸ List.prefix_rfl
  | redefine h hredefine ih =>
    rw [(redefine_ok hredefine).2.2.1]
    exact List.cons_prefix_cons.mpr ⟨rfl, ih⟩
  | purge h ih => exact (List.prefix_append [_] _).trans ih

/-- `Lineage` begins with the version in force. -/
theorem exists_eq_cons (h : c.Lineage versions) : ∃ earlier, versions = c.current :: earlier := by
  obtain ⟨more, hmore⟩ := h.kept_prefix
  exact ⟨c.previous ++ more, hmore.symm⟩

/-- `Lineage` has one version for each generation. -/
theorem length_eq (h : c.Lineage versions) : versions.length = c.generation + 1 := by
  induction h with
  | define hdefine => rw [(define_ok hdefine).2.1, List.length_singleton]
  | redefine _ hredefine ih => rw [(redefine_ok hredefine).2.1, List.length_cons, ih]
  | purge _ ih => exact ih

/-- `Lineage` counts the generations down, without gaps. -/
private theorem map_generation (h : c.Lineage versions) :
    versions.map (·.generation) = (List.range versions.length).reverse := by
  induction h with
  | define hdefine => exact congrArg (fun g => [g]) (define_ok hdefine).2.1
  | @redefine c c' versions _ _ _ _ h hredefine ih =>
    have hgeneration : c'.current.generation = versions.length := by
      rw [h.length_eq]
      exact (redefine_ok hredefine).2.1
    rw [List.map_cons, ih, hgeneration, List.length_cons, List.range_succ, List.reverse_append,
      List.reverse_singleton, List.singleton_append]
  | purge _ ih => exact ih

/-- `Lineage` lists of two versions the one of the later generation first. -/
theorem pairwise_generation (h : c.Lineage versions) :
    versions.Pairwise fun v v' => v'.generation < v.generation := by
  have hsorted : (versions.map (·.generation)).Pairwise (· > ·) := by
    rw [h.map_generation]
    exact List.pairwise_reverse.mpr List.pairwise_lt_range
  exact List.pairwise_map.mp hsorted

/-- `Placed` holds of the methods of every version in a `Lineage`. -/
theorem placed (h : c.Lineage versions) :
    ∀ v ∈ versions, Placed c.id v.generation v.methods := by
  induction h with
  | define hdefine =>
    obtain ⟨-, -, -, hplaced, -, -⟩ := define_ok hdefine
    exact fun v hv => List.mem_singleton.mp hv ▸ hplaced
  | redefine _ hredefine ih =>
    obtain ⟨hid, -, -, hplaced, -, -⟩ := redefine_ok hredefine
    exact List.forall_mem_cons.mpr ⟨hplaced, hid ▸ ih⟩
  | purge _ ih => exact ih

/-- `Lineage` has the version in force. -/
theorem current_mem (h : c.Lineage versions) : c.current ∈ versions :=
  h.kept_prefix.subset List.mem_cons_self

/-- No ordinal has been given out from `Class.nextOrdinal` on. -/
theorem ordinal_lt (h : c.Lineage versions) :
    ∀ v ∈ versions, ∀ m ∈ v.methods, m.ordinal < c.nextOrdinal := by
  -- Induction on the history; a new version numbers from the next unused ordinal on
  induction h with
  | define hdefine =>
    obtain ⟨-, -, -, -, -, hnumbered⟩ := define_ok hdefine
    intro v hv m hm
    obtain rfl := List.mem_singleton.mp hv
    exact hnumbered.ordinal_lt (fun _ _ hknown => absurd hknown (not_known _ _)) m
      (Array.mem_toList_iff.mpr hm)
  | @redefine c c' versions _ _ _ _ h hredefine ih =>
    obtain ⟨-, -, -, -, -, hnumbered⟩ := redefine_ok hredefine
    have hbelow := ClassVersion.ordinal_lt_of_known (ih c.current h.current_mem)
    refine List.forall_mem_cons.mpr ⟨fun m hm => ?_, fun v hv m hm => ?_⟩
    · exact hnumbered.ordinal_lt hbelow m (Array.mem_toList_iff.mpr hm)
    · exact Nat.lt_of_lt_of_le (ih v hv m hm) hnumbered.next_le
  | purge _ ih => exact ih

/-- `Method.ordinal` stands for one name and signature, whatever versions its methods are of. -/
theorem key_eq_of_ordinal_eq (h : c.Lineage versions) :
    ∀ v ∈ versions, ∀ v' ∈ versions, ∀ m ∈ v.methods, ∀ m' ∈ v'.methods,
      m.ordinal = m'.ordinal → m.key = m'.key := by
  -- Induction on the history, so that only pairs with a method of the new version are left
  induction h with
  | define hdefine =>
    obtain ⟨-, -, -, -, -, hnumbered⟩ := define_ok hdefine
    intro v hv v' hv' m hm m' hm'
    obtain rfl := List.mem_singleton.mp hv
    obtain rfl := List.mem_singleton.mp hv'
    exact hnumbered.key_eq_of_ordinal_eq (fun _ _ hknown => absurd hknown (not_known _ _))
      (fun _ _ _ hknown => absurd hknown (not_known _ _)) m (Array.mem_toList_iff.mpr hm) m'
      (Array.mem_toList_iff.mpr hm')
  | @redefine c c' versions _ _ _ _ h hredefine ih =>
    obtain ⟨-, -, -, -, -, hnumbered⟩ := redefine_ok hredefine
    have hbelow := ClassVersion.ordinal_lt_of_known (h.ordinal_lt c.current h.current_mem)
    have hsame := ClassVersion.key_eq_of_known (ih c.current h.current_mem c.current h.current_mem)
    -- A method of the new version against one of an older version
    have hacross : ∀ m ∈ c'.current.methods, ∀ v ∈ versions, ∀ m' ∈ v.methods,
        m.ordinal = m'.ordinal → m.key = m'.key := by
      intro m hm v hv m' hm' heq
      rw [← Array.mem_toList_iff] at hm
      cases hknown : c.current.ordinals[m.key]? with
      | none =>
        have hge := hnumbered.le_ordinal_of_unknown hm hknown
        have hlt := h.ordinal_lt v hv m' hm'
        omega
      | some ordinal =>
        obtain ⟨m'', hm'', hkey, hordinal⟩ := ClassVersion.exists_of_getElem?_ordinals hknown
        rw [← hkey]
        refine ih c.current h.current_mem v hv m'' hm'' m' hm' ?_
        rw [hordinal, ← hnumbered.ordinal_of_known hm hknown, heq]
    intro v hv v' hv' m hm m' hm' heq
    rcases List.mem_cons.mp hv with rfl | hv <;> rcases List.mem_cons.mp hv' with rfl | hv'
    · exact hnumbered.key_eq_of_ordinal_eq hbelow hsame m (Array.mem_toList_iff.mpr hm) m'
        (Array.mem_toList_iff.mpr hm') heq
    · exact hacross m hm v' hv' m' hm' heq
    · exact (hacross m' hm' v hv m hm heq.symm).symm
    · exact ih v hv v' hv' m hm m' hm' heq
  | purge _ ih => exact ih

/-- `Lineage` has each version but the first from a redefinition of the class as it was before. -/
private theorem redefined (h : c.Lineage versions) {later earlier : List ClassVersion}
    {new old : ClassVersion} (heq : versions = later ++ new :: old :: earlier) :
    ∃ (c₀ c₁ : Class) (methods : List MethodSpec) (sourceFile : Option String)
      (symbols symbols' : SymbolTable), c₀.Lineage (old :: earlier) ∧ c₀.current = old ∧
        c₀.redefine methods sourceFile symbols = (.ok c₁, symbols') ∧ c₁.current = new := by
  induction h generalizing later with
  | define hdefine =>
    have hlength := congrArg List.length heq
    simp only [List.length_append, List.length_cons, List.length_nil] at hlength
    omega
  | @redefine c c' versions _ _ _ _ h hredefine ih =>
    cases later with
    | nil =>
      obtain ⟨hnew, rfl⟩ := List.cons.inj heq
      obtain ⟨_, hcons⟩ := h.exists_eq_cons
      exact ⟨_, _, _, _, _, _, h, (List.cons.inj hcons).1.symm, hredefine, hnew⟩
    | cons v later => exact ih (List.cons.inj heq).2
  | purge _ ih => exact ih heq

/-- `Numbered` tells how the methods of a later version got their ordinals. -/
theorem numbered (h : c.Lineage versions) {later earlier : List ClassVersion}
    {new old : ClassVersion} (heq : versions = later ++ new :: old :: earlier) :
    ∃ next after, Numbered old.ordinals next new.methods.toList after ∧
      ∀ v ∈ old :: earlier, ∀ m ∈ v.methods, m.ordinal < next := by
  obtain ⟨c₀, c₁, _, _, _, _, h₀, rfl, hredefine, rfl⟩ := h.redefined heq
  obtain ⟨-, -, -, -, -, hnumbered⟩ := redefine_ok hredefine
  exact ⟨c₀.nextOrdinal, c₁.nextOrdinal, hnumbered, h₀.ordinal_lt⟩

/-- `Class.Lineage` tells what becomes of generations and ordinals, whatever redefinitions and purges
    there are.  Generations count the versions, of which the latest are kept.  An ordinal stands for
    methods of one `Method.key` only, in all versions that there have been.  A method of a new version
    whose name and signature occur in the version before it carries an ordinal that they had there, and
    any other one an ordinal greater than all that were given out before, be it to methods of older
    versions or to those listed before it. -/
theorem ordinals_stable (h : c.Lineage versions) :
    versions.map (·.generation) = (List.range versions.length).reverse ∧
    c.current :: c.previous <+: versions ∧
    (c.current :: c.previous).Pairwise (fun v v' => v.generation ≠ v'.generation) ∧
    (∀ v ∈ versions, ∀ v' ∈ versions, ∀ m ∈ v.methods, ∀ m' ∈ v'.methods,
      m.ordinal = m'.ordinal → m.key = m'.key) ∧
    ∀ (later earlier : List ClassVersion) (new old : ClassVersion),
      versions = later ++ new :: old :: earlier → ∀ (i : Nat) (hi : i < new.methods.size),
        (old.Declares new.methods[i].key →
          ∃ m ∈ old.methods, m.key = new.methods[i].key ∧ m.ordinal = new.methods[i].ordinal) ∧
        (¬old.Declares new.methods[i].key →
          (∀ v ∈ old :: earlier, ∀ m ∈ v.methods, m.ordinal < new.methods[i].ordinal) ∧
          ∀ (j : Nat) (hj : j < i), new.methods[j].ordinal < new.methods[i].ordinal) := by
  have hdistinct := (h.pairwise_generation.sublist h.kept_prefix.sublist).imp
    fun {v v'} hlt => (Nat.ne_of_lt hlt).symm
  refine ⟨h.map_generation, h.kept_prefix, hdistinct, h.key_eq_of_ordinal_eq, ?_⟩
  -- The ordinal of a method in a later version, against the version before it
  intro later earlier new old heq i hi
  obtain ⟨next, after, hnumbered, hbelow⟩ := h.numbered heq
  have hmem : new.methods[i] ∈ new.methods.toList :=
    Array.mem_toList_iff.mpr (Array.getElem_mem hi)
  constructor
  · intro hdeclares
    -- The key is known, under the ordinal of a method that carried it
    obtain ⟨ordinal, hknown⟩ :=
      Option.ne_none_iff_exists'.mp (ClassVersion.getElem?_ordinals_ne_none.mpr hdeclares)
    obtain ⟨m, hm, hkey, hordinal⟩ := ClassVersion.exists_of_getElem?_ordinals hknown
    exact ⟨m, hm, hkey, hordinal.trans (hnumbered.ordinal_of_known hmem hknown).symm⟩
  · intro hnot
    have hunknown := ClassVersion.getElem?_ordinals_eq_none.mpr hnot
    have hge := hnumbered.le_ordinal_of_unknown hmem hunknown
    refine ⟨fun v hv m hm => Nat.lt_of_lt_of_le (hbelow v hv m hm) hge, fun j hj => ?_⟩
    have hpairs := hnumbered.pairwise
      (ClassVersion.ordinal_lt_of_known (hbelow old List.mem_cons_self))
    exact List.pairwise_iff_getElem.mp hpairs j i _ _ hj hunknown

/-- `ordinals_stable` for a method that goes missing in one version and comes back after a purge: it
    gets a new ordinal, while one that has been there all along keeps that it had. -/
theorem ordinals_stable_returning : ∃ (c : Class) (new old first : ClassVersion)
    (hi : 1 < new.methods.size), c.Lineage [new, old, first] ∧ c.previous = [old] ∧
    first.methods.toList.map Method.key = [("run", "()V"), ("walk", "()V"), ("walk", "(I)V")] ∧
    new.methods.toList.map Method.key = [("walk", "(I)V"), ("run", "()V")] ∧
    new.generation = 2 ∧ (∀ m ∈ first.methods, m.ordinal < new.methods[1].ordinal) ∧
    ∃ m ∈ old.methods, m.key = new.methods[0].key ∧ m.ordinal = new.methods[0].ordinal := by
  -- Three versions, with a purge before the last
  obtain ⟨c₀, symbols, hdefine, hnext⟩ : ∃ c₀ symbols, Class.define { name := "acme/Widget", methods :=
      [{ name := "run" }, { name := "walk" }, { name := "walk", signature := "(I)V" }] } ⟨0⟩
      SymbolTable.empty = (.ok c₀, symbols) ∧ c₀.nextOrdinal = 3 := ⟨_, _, rfl, rfl⟩
  obtain ⟨c₁, symbols, hfirst⟩ := c₀.exists_redefine [{ name := "walk", signature := "(I)V" }] none
    symbols (hnext ▸ by decide)
  obtain ⟨-, -, -, -, holdSpecs, hnumbered⟩ := redefine_ok hfirst
  have holdKeys := map_key_of_map_spec holdSpecs
  have hcount := congrArg List.length holdKeys
  rw [List.length_map, List.length_map, List.length_singleton] at hcount
  have hnext' := hnumbered.after_le
  obtain ⟨c₂, _, hsecond⟩ := c₁.purge.exists_redefine
    [{ name := "walk", signature := "(I)V" }, { name := "run" }] none symbols
    (show c₁.nextOrdinal + 2 ≤ 65535 by omega)
  obtain ⟨-, -, hprevious, -, hspecs, -⟩ := redefine_ok hsecond
  have hkeys := map_key_of_map_spec hspecs
  have hsize := congrArg List.length hkeys
  rw [List.length_map, Array.length_toList] at hsize
  have hi : 1 < c₂.current.methods.size := hsize ▸ Nat.one_lt_two
  have hzero : 0 < c₂.current.methods.size := Nat.zero_lt_of_lt hi
  have hwalk := Option.some.inj (getElem?_of_map_eq hkeys hzero)
  have hrun := Option.some.inj (getElem?_of_map_eq hkeys hi)
  have hlineage := ((Lineage.define hdefine).redefine hfirst).purge.redefine hsecond
  -- From here on the theorem tells the ordinals
  obtain ⟨hgenerations, -, -, -, hordinals⟩ := ordinals_stable hlineage
  have hsteps := hordinals [] [c₀.current] c₂.current c₁.current rfl
  refine ⟨c₂, c₂.current, c₁.current, c₀.current, hi, hlineage, hprevious,
    map_key_of_map_spec (define_ok hdefine).2.2.2.2.1, hkeys, (List.cons.inj hgenerations).1, ?_, ?_⟩
  · -- `run` is not in the version before
    refine ((hsteps 1 hi).2 ?_).1 c₀.current (List.mem_cons_of_mem _ List.mem_cons_self)
    rw [ClassVersion.declares_iff, holdKeys, ← hrun]
    decide
  · refine (hsteps 0 hzero).1 ?_
    rw [ClassVersion.declares_iff, holdKeys, ← hwalk]
    decide

end Lineage

end Class

end StackTrace
