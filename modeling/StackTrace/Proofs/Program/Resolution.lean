import Mathlib.Data.List.Nodup
import StackTrace.Proofs.Program.Lineage
import StackTrace.Proofs.Program.Redefinition

/-!
# The method that an ordinal and a generation name

Stored frames name a method by its ordinal and its generation.  Of the methods of one version that
share an ordinal these name the first.  Methods come to share an ordinal when a redefinition lists a
name and signature more than once that the version before it has: all of them keep its ordinal.

## Key results

- `Class.Lineage.ordinal_eq_iff`, `Class.Lineage.nodup_ordinals`: which methods of a version share an
  ordinal
- `Class.Lineage.version_of_kept`: a version that is kept is found under its generation
- `Class.Lineage.method_resolved`: the method that is found for a method, and how a frame of it is shown
- `Class.not_resolved_to_itself`: it may be another one
-/

namespace StackTrace

/-- `ClassVersion.withOrdinal` of a method finds the first method that has its ordinal. -/
private theorem ClassVersion.withOrdinal_getElem (v : ClassVersion) {i : Nat} (hi : i < v.methods.size) :
    ∃ (j : Nat) (hj : j ≤ i), v.withOrdinal v.methods[i].ordinal = some v.methods[j] ∧
      v.methods[j].ordinal = v.methods[i].ordinal ∧
      ∀ (k : Nat) (hk : k < j), v.methods[k].ordinal ≠ v.methods[i].ordinal := by
  have hfound : (v.withOrdinal v.methods[i].ordinal).isSome :=
    Array.find?_isSome.mpr ⟨v.methods[i], Array.getElem_mem hi, beq_self_eq_true _⟩
  obtain ⟨m, hm⟩ := Option.isSome_iff_exists.mp hfound
  obtain ⟨hordinal, j, hj, rfl, hbefore⟩ := Array.find?_eq_some_iff_getElem.mp hm
  have hle : j ≤ i := by
    refine Nat.le_of_not_lt fun hlt => ?_
    have hnot := hbefore i hlt
    rw [beq_self_eq_true] at hnot
    cases hnot
  refine ⟨j, hle, hm, beq_iff_eq.mp hordinal, fun k hk heq => ?_⟩
  have hnot := hbefore k hk
  rw [heq, beq_self_eq_true] at hnot
  cases hnot

namespace Class

/-- Methods that are `Placed` know their places, so those in different places differ. -/
private theorem Placed.getElem_inj_iff {holder : ClassId} {generation : Nat} {methods : Array Method}
    (h : Placed holder generation methods) {i j : Nat} (hi : i < methods.size)
    (hj : j < methods.size) : methods[i] = methods[j] ↔ i = j := by
  constructor
  · intro heq
    rw [← (h i hi).2.2, heq, (h j hj).2.2]
  · rintro rfl
    rfl

namespace Lineage

variable {c : Class} {versions : List ClassVersion}

/-- `Method.ordinal` is different for the methods of a first version. -/
theorem nodup_ordinals (h : c.Lineage versions) {first : ClassVersion}
    (hfirst : versions.getLast? = some first) : (first.methods.toList.map (·.ordinal)).Nodup := by
  induction h with
  | define hdefine =>
    obtain ⟨-, -, -, -, -, hnumbered⟩ := define_ok hdefine
    obtain rfl := Option.some.inj hfirst
    have hpairs := hnumbered.pairwise fun _ _ hknown => absurd hknown (not_known _ _)
    exact List.pairwise_map.mpr
      (hpairs.imp fun hless => Nat.ne_of_lt (hless Std.HashMap.getElem?_empty))
  | redefine h _ ih =>
    obtain ⟨earlier, rfl⟩ := h.exists_eq_cons
    exact ih hfirst
  | purge _ ih => exact ih hfirst

/-- `Method.ordinal` is shared by two methods of a later version exactly if they have the same name and
    signature and the version before it has a method of that name and signature. -/
theorem ordinal_eq_iff (h : c.Lineage versions) {later earlier : List ClassVersion}
    {new old : ClassVersion} (heq : versions = later ++ new :: old :: earlier) {i j : Nat}
    (hi : i < new.methods.size) (hj : j < new.methods.size) (hne : i ≠ j) :
    new.methods[i].ordinal = new.methods[j].ordinal ↔
      new.methods[i].key = new.methods[j].key ∧ old.Declares new.methods[j].key := by
  obtain ⟨next, after, hnumbered, hbelow⟩ := h.numbered heq
  have hold : old ∈ versions :=
    heq ▸ List.mem_append_right later (List.mem_cons_of_mem new List.mem_cons_self)
  have hpairs := hnumbered.pairwise_ordinal_eq_iff
    (ClassVersion.ordinal_lt_of_known (hbelow old List.mem_cons_self))
    (ClassVersion.key_eq_of_known (h.key_eq_of_ordinal_eq old hold old hold))
  -- In the order in which they were numbered; the other way round is the same
  have hiff : ∀ (k l : Nat) (hk : k < new.methods.size) (hl : l < new.methods.size), k < l →
      (new.methods[k].ordinal = new.methods[l].ordinal ↔
        new.methods[k].key = new.methods[l].key ∧ old.Declares new.methods[l].key) := by
    intro k l hk hl hlt
    have hpair := List.pairwise_iff_getElem.mp hpairs k l hk hl hlt
    rwa [ClassVersion.getElem?_ordinals_ne_none] at hpair
  rcases Nat.lt_or_gt_of_ne hne with hlt | hgt
  · exact hiff i j hi hj hlt
  · rw [eq_comm, hiff j i hj hi hgt]
    exact ⟨fun ⟨hkey, hdeclares⟩ => ⟨hkey.symm, hkey ▸ hdeclares⟩,
      fun ⟨hkey, hdeclares⟩ => ⟨hkey.symm, hkey ▸ hdeclares⟩⟩

/-- `Class.version` finds a version that is kept under its generation. -/
theorem version_of_kept (h : c.Lineage versions) {v : ClassVersion}
    (hv : v ∈ c.current :: c.previous) : c.version v.generation = some v := by
  have hfound : (c.version v.generation).isSome :=
    List.find?_isSome.mpr ⟨v, hv, beq_self_eq_true _⟩
  obtain ⟨v', hv'⟩ := Option.isSome_iff_exists.mp hfound
  have hgeneration : v'.generation = v.generation := by
    have heq := List.find?_some hv'
    exact beq_iff_eq.mp heq
  have hpairs := h.pairwise_generation.sublist h.kept_prefix.sublist
  have hnodup : ((c.current :: c.previous).map (·.generation)).Nodup :=
    List.pairwise_map.mpr (hpairs.imp fun hlt => (Nat.ne_of_lt hlt).symm)
  have hsame := List.inj_on_of_nodup_map hnodup (List.mem_of_find?_eq_some hv') hv hgeneration
  rw [hv', hsame]

/-- `Class.methodWithOrdinal` of a method, by its ordinal and generation.  The methods of a first
    version have ordinals of their own; two methods of a later version share an ordinal exactly if they
    have the same name and signature and the version before it has these, too.  For a method of a
    version that is kept, its ordinal and generation name the first method with that ordinal, of the
    same name and signature, and that is what `StackTraceElement.ofFrame` shows a frame of the method
    as, if its generation can be stored.  It is the method itself unless one that is listed before it
    has its ordinal. -/
theorem method_resolved (h : c.Lineage versions) :
    (∀ first ∈ versions.getLast?, (first.methods.toList.map (·.ordinal)).Nodup) ∧
    (∀ (later earlier : List ClassVersion) (new old : ClassVersion),
      versions = later ++ new :: old :: earlier →
      ∀ (i j : Nat) (hi : i < new.methods.size) (hj : j < new.methods.size), i ≠ j →
        (new.methods[i].ordinal = new.methods[j].ordinal ↔
          new.methods[i].key = new.methods[j].key ∧ old.Declares new.methods[j].key)) ∧
    ∀ v ∈ c.current :: c.previous, ∀ (i : Nat) (hi : i < v.methods.size), ∃ (j : Nat) (hj : j ≤ i),
      v.methods[j].ordinal = v.methods[i].ordinal ∧
      (∀ (k : Nat) (hk : k < j), v.methods[k].ordinal ≠ v.methods[i].ordinal) ∧
      v.methods[j].key = v.methods[i].key ∧ (v.methods[j] = v.methods[i] ↔ j = i) ∧
      c.methodWithOrdinal v.methods[i].ordinal v.methods[i].generation = some v.methods[j] ∧
      ∀ (b b' : Builder) (memory memory' : Memory) (holder : Class) (bci : Int), b.Opened →
        holder.id = c.id → v.methods[i].generation < 65535 →
        b.push memory holder v.methods[i] bci = (.ok (), b', memory') →
        ∃ f, b'.newest? = some f ∧ ∀ p : Program, p.get? c.id = some c →
          let e := StackTraceElement.ofFrame p f
          e.status = .live ∧ Throwable.liveMethod? p f = some v.methods[j] ∧
            e.methodName = v.methods[i].name.text ∧ e.lineNumber = v.methods[j].lineNumber bci := by
  refine ⟨fun first hfirst => h.nodup_ordinals hfirst, fun _ _ _ _ heq _ _ hi hj hne =>
    h.ordinal_eq_iff heq hi hj hne, fun v hv i hi => ?_⟩
  have hmem : v ∈ versions := h.kept_prefix.subset hv
  have hplaced := h.placed v hmem
  obtain ⟨j, hle, hfound, hordinal, hbefore⟩ := v.withOrdinal_getElem hi
  have hj : j < v.methods.size := Nat.lt_of_le_of_lt hle hi
  have hgeneration : v.methods[i].generation = v.generation := (hplaced i hi).2.1
  -- The version is found by the generation, and in it the first method with the ordinal
  have hresolved : c.methodWithOrdinal v.methods[i].ordinal v.methods[i].generation =
      some v.methods[j] := by
    rw [methodWithOrdinal, hgeneration, h.version_of_kept hv]
    exact hfound
  have hkey : v.methods[j].key = v.methods[i].key := h.key_eq_of_ordinal_eq v hmem v hmem _
    (Array.getElem_mem hj) _ (Array.getElem_mem hi) hordinal
  refine ⟨j, hle, hordinal, hbefore, hkey, hplaced.getElem_inj_iff hj hi, hresolved, ?_⟩
  intro b b' memory memory' holder bci hb hid hlt hpush
  obtain ⟨f, hnewest, hf⟩ := (Builder.placed_push hb.placed hpush).2 rfl
  refine ⟨f, hnewest, fun p hp => ?_⟩
  have hversion : f.location.version = v.methods[i].generation :=
    hf.version_eq.trans (Location.versionOf_of_lt hlt)
  -- The frame names a method of its own generation
  have hlive : (c.methodWithOrdinal f.ordinal f.location.version).filter
      (versionMatches ·.generation f.location.version) = some v.methods[j] := by
    have hsame : v.methods[j].generation = v.methods[i].generation :=
      (hplaced j hj).2.1.trans hgeneration.symm
    rw [hf.ordinal_eq, hversion, hresolved, Option.filter_some, hsame, versionMatches_self hlt,
      if_pos rfl]
  have hget : p.get? f.holder = some c := by rw [hf.holder_eq, hid, hp]
  obtain ⟨hstatus, hname, hline, -⟩ :=
    StackTraceElement.materialize_of_live hlive f.location.bci f.name.text
  intro e
  simp only [e, StackTraceElement.ofFrame, hget]
  refine ⟨hstatus, ?_, hname.trans (congrArg Prod.fst hkey), ?_⟩
  · rw [Throwable.liveMethod?, Throwable.resolve?, hget]
    exact hlive
  · rw [hline, hf.bci_eq, Method.lineNumber_max_zero]

end Lineage

/-! ## A class that lists a method twice -/

/-- A method `run` with code of one line. -/
def runAt (line : Nat) : MethodSpec := { name := "run", lines := [⟨0, line⟩] }

/-- `Class.redefine` of a version that lists `run` twice by another that does: there, the later of the
    two gets the ordinal of the earlier. -/
private theorem exists_shadowed : ∃ (c : Class) (old : ClassVersion) (hi : 1 < c.current.methods.size),
    c.id = ⟨0⟩ ∧ c.Lineage [c.current, old] ∧
    c.current.methods[0].ordinal = c.current.methods[1].ordinal ∧
    c.current.methods[0].spec = runAt 30 ∧ c.current.methods[1].spec = runAt 40 := by
  obtain ⟨c₀, symbols, hdefine, hnext⟩ : ∃ c₀ symbols,
      Class.define { name := "app/Main", methods := [runAt 10, runAt 20] } ⟨0⟩ SymbolTable.empty =
        (.ok c₀, symbols) ∧ c₀.nextOrdinal = 2 := ⟨_, _, rfl, rfl⟩
  obtain ⟨c, _, hredefine⟩ :=
    c₀.exists_redefine [runAt 30, runAt 40] none symbols (hnext ▸ by decide)
  obtain ⟨-, -, -, -, holdSpecs, -⟩ := define_ok hdefine
  obtain ⟨-, -, -, -, hspecs, -⟩ := redefine_ok hredefine
  have hlineage := (Lineage.define hdefine).redefine hredefine
  have hsize := congrArg List.length hspecs
  rw [List.length_map, Array.length_toList] at hsize
  have hi : 1 < c.current.methods.size := hsize ▸ Nat.one_lt_two
  have hzero : 0 < c.current.methods.size := Nat.zero_lt_of_lt hi
  have hfirst : c.current.methods[0].spec = runAt 30 :=
    (Option.some.inj (getElem?_of_map_eq hspecs hzero)).symm
  have hsecond : c.current.methods[1].spec = runAt 40 :=
    (Option.some.inj (getElem?_of_map_eq hspecs hi)).symm
  have hkeyFirst : c.current.methods[0].key = ("run", "()V") := congrArg MethodSpec.key hfirst
  have hkeySecond : c.current.methods[1].key = ("run", "()V") := congrArg MethodSpec.key hsecond
  have hdeclares : c₀.current.Declares c.current.methods[1].key := by
    rw [ClassVersion.declares_iff, map_key_of_map_spec holdSpecs, hkeySecond]
    exact List.mem_cons_self
  -- The key is known from the version before, so both carry the ordinal that it had
  have hordinal := (hlineage.ordinal_eq_iff (List.nil_append _).symm hzero hi Nat.zero_ne_one).mpr
    ⟨hkeyFirst.trans hkeySecond.symm, hdeclares⟩
  have hid : c.id = ⟨0⟩ := (redefine_ok hredefine).1.trans (define_ok hdefine).1
  exact ⟨c, c₀.current, hi, hid, hlineage, hordinal, hfirst, hsecond⟩

/-- `Method.lineNumber` of a frame at the start of the code of `runAt`. -/
private theorem lineNumber_of_spec_runAt {m : Method} {line : Nat} (h : m.spec = runAt line) :
    m.lineNumber 0 = line := by
  have hflags : m.flags = {} := congrArg MethodSpec.flags h
  have hcodeSize : m.codeSize = 1 := congrArg MethodSpec.codeSize h
  have hlines : m.lines = [⟨0, line⟩] := congrArg MethodSpec.lines h
  rw [Method.lineNumber, Method.lineAt, hflags, hcodeSize, hlines]
  rfl

/-- `Lineage.method_resolved` for the class of `exists_shadowed`: a frame of the later of the two is
    shown with the line of the earlier. -/
theorem Lineage.method_resolved_shadowed : ∃ (c : Class) (versions : List ClassVersion)
    (m m' : Method) (b b' : Builder) (memory memory' : Memory) (f : StoredFrame) (p : Program),
    c.Lineage versions ∧ m ∈ c.current.methods ∧ m' ≠ m ∧
    c.methodWithOrdinal m.ordinal m.generation = some m' ∧ m.lineNumber 0 = 40 ∧
    b.push memory c m 0 = (.ok (), b', memory') ∧ b'.newest? = some f ∧ p.get? c.id = some c ∧
    (StackTraceElement.ofFrame p f).status = .live ∧
    (StackTraceElement.ofFrame p f).methodName = "run" ∧
    (StackTraceElement.ofFrame p f).lineNumber = 30 := by
  obtain ⟨c, old, hi, hid, hlineage, hordinal, hfirst, hsecond⟩ := exists_shadowed
  obtain ⟨-, -, hresolves⟩ := Lineage.method_resolved hlineage
  obtain ⟨j, hj, -, hbefore, -, hself, hfound, hshown⟩ := hresolves c.current List.mem_cons_self 1 hi
  obtain rfl : j = 0 := Nat.eq_zero_of_not_pos fun hpos => hbefore 0 hpos hordinal
  -- A frame of the later one is pushed into a new store
  have hmemory : (Memory.ofLimit none).NeverRefuses := ⟨⟨nofun, by decide⟩, rfl⟩
  obtain ⟨b, hstart⟩ := Builder.start_of_neverRefuses Nat.one_pos hmemory
  have hscope := hmemory.openScope.charged 1 (Chunk.heapBytes 1)
  have hblank := (Builder.start_ok hstart).1
  obtain ⟨b', memory', hpush, -⟩ := (hblank.spent hscope).push hscope hblank.sound c
    c.current.methods[1] (show Location.fits 0 = true by decide)
  have hgeneration : c.current.methods[1].generation < 65535 := by
    have hcount : 2 = c.generation + 1 := hlineage.length_eq
    rw [(hlineage.placed c.current hlineage.current_mem 1 hi).2.1]
    change c.generation < 65535
    omega
  obtain ⟨f, hnewest, hshows⟩ := hshown b b' _ memory' c 0 (.start hstart) rfl hgeneration hpush
  have hget : (Program.mk SymbolTable.empty #[c] Table.empty).get? c.id = some c := by
    rw [hid]
    rfl
  obtain ⟨hstatus, -, hname, hline⟩ := hshows _ hget
  exact ⟨c, _, c.current.methods[1], c.current.methods[0], b, b', _, memory', f, _, hlineage,
    Array.getElem_mem hi, mt hself.mp Nat.zero_ne_one, hfound, lineNumber_of_spec_runAt hsecond,
    hpush, hnewest, hget, hstatus, hname.trans (congrArg MethodSpec.name hsecond),
    hline.trans (lineNumber_of_spec_runAt hfirst)⟩

/-- `Class.methodWithOrdinal` need not resolve a method to itself: what is found for the later of the
    two in `exists_shadowed` is the earlier, which has another line. -/
theorem not_resolved_to_itself : ∃ (c : Class) (versions : List ClassVersion) (m m' : Method),
    c.Lineage versions ∧ m ∈ c.current.methods ∧ m' ∈ c.current.methods ∧
    m.place ≠ m'.place ∧ m.ordinal = m'.ordinal ∧
    c.methodWithOrdinal m.ordinal m.generation = some m' ∧ m' ≠ m ∧
    m.lineNumber 0 = 40 ∧ m'.lineNumber 0 = 30 := by
  obtain ⟨c, old, hi, -, hlineage, hordinal, hfirst, hsecond⟩ := exists_shadowed
  have hzero : 0 < c.current.methods.size := Nat.zero_lt_of_lt hi
  have hplaced := hlineage.placed c.current hlineage.current_mem
  -- The first method with the ordinal is the one in the first place
  obtain ⟨j, hj, hfound, -, hbefore⟩ := c.current.withOrdinal_getElem hi
  obtain rfl : j = 0 := Nat.eq_zero_of_not_pos fun hpos => hbefore 0 hpos hordinal
  have hresolved : c.methodWithOrdinal c.current.methods[1].ordinal
      c.current.methods[1].generation = some c.current.methods[0] := by
    rw [methodWithOrdinal, (hplaced 1 hi).2.1, hlineage.version_of_kept List.mem_cons_self]
    exact hfound
  have hplaces : c.current.methods[1].place ≠ c.current.methods[0].place := by
    rw [(hplaced 1 hi).2.2, (hplaced 0 hzero).2.2]
    exact Nat.one_ne_zero
  exact ⟨c, _, c.current.methods[1], c.current.methods[0], hlineage, Array.getElem_mem hi,
    Array.getElem_mem hzero, hplaces, hordinal.symm, hresolved, fun heq => hplaces (heq ▸ rfl),
    lineNumber_of_spec_runAt hsecond, lineNumber_of_spec_runAt hfirst⟩

end Class

end StackTrace
