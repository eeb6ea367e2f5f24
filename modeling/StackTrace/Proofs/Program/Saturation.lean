import StackTrace.Proofs.Program.Resolution

/-!
# Frames of versions that cannot be stored

Generations grow without bound, but a stored frame has only 65536 versions for them, and from the
largest on all generations are stored alike.  What such a frame names is looked up under the largest
version, which may be found: that of generation 65535 is kept until the next purge.  So a frame of a
later generation may be resolved, to a method of another version.  It never is shown as that one, since
what is shown has to be of the stored version, and the largest one counts for none.

## Key results

- `Builder.resolve_of_pushed`: what a stored frame is resolved to, in any history of its class
- `Builder.not_resolved_to_pushed`: it may be another method than the frame was recorded from
-/

namespace StackTrace

namespace StoredFrame.Records

variable {f : StoredFrame} {c : Class} {method : Method} {bci : Int} {history : List ClassChange}
  {p : Program}

/-- `Throwable.resolve?` is the method that the frame names, live or not. -/
private theorem resolve?_eq (hf : f.Records c method bci) (hp : p.get? c.id = some (c.evolve history)) :
    Throwable.resolve? p f = (c.evolve history).methodWithOrdinal method.ordinal
      (Location.versionOf method.generation) := by
  rw [Throwable.resolve?, hf.holder_eq, hp, hf.ordinal_eq, hf.version_eq]
  rfl

variable {version : Nat} (hversion : Location.versionOf method.generation = version)
  (hle : version ≤ c.generation)

include hversion hle

/-- `Throwable.resolve?` is what the frame named when it was recorded, as long as the version that it
    carries is kept. -/
private theorem resolve?_of_kept (hf : f.Records c method bci)
    (hp : p.get? c.id = some (c.evolve history)) (hkept : ¬c.PurgedSince version history) :
    Throwable.resolve? p f = c.methodWithOrdinal method.ordinal version := by
  rw [hf.resolve?_eq hp, hversion, Class.methodWithOrdinal, Class.version_evolve_of_kept hle hkept,
    ← Class.methodWithOrdinal]

/-- `Throwable.resolve?` finds nothing once that version has been purged. -/
private theorem resolve?_of_purged (hf : f.Records c method bci)
    (hp : p.get? c.id = some (c.evolve history)) (hpurged : c.PurgedSince version history) :
    Throwable.resolve? p f = none := by
  rw [hf.resolve?_eq hp, hversion, Class.methodWithOrdinal,
    Class.version_evolve_of_purged hle hpurged, Option.bind_none]

end StoredFrame.Records

namespace Class

variable {c : Class}

/-- `Class.methodWithOrdinal` is a method of that generation with that ordinal, in one of the versions
    that there have been. -/
private theorem Lineage.of_methodWithOrdinal {versions : List ClassVersion} (h : c.Lineage versions)
    {ordinal generation : Nat} {m : Method} (hm : c.methodWithOrdinal ordinal generation = some m) :
    m.ordinal = ordinal ∧ m.generation = generation ∧ ∃ v ∈ versions, m ∈ v.methods := by
  obtain ⟨v, hv, hfound⟩ := Option.bind_eq_some_iff.mp hm
  have hmem : v ∈ versions := h.kept_prefix.subset (List.mem_of_find?_eq_some hv)
  have hgeneration : v.generation = generation := by
    have heq := List.find?_some hv
    exact beq_iff_eq.mp heq
  have hordinal := Array.find?_some hfound
  have hin := Array.mem_of_find?_eq_some hfound
  obtain ⟨i, hi, rfl⟩ := Array.getElem_of_mem hin
  exact ⟨beq_iff_eq.mp hordinal, (h.placed v hmem i hi).2.1.trans hgeneration, v, hmem, hin⟩

/-- `Class.methodWithOrdinal` names by one ordinal methods of one name and signature. -/
private theorem Loaded.key_eq_of_methodWithOrdinal (h : c.Loaded) {ordinal generation generation' : Nat}
    {m m' : Method} (hm : c.methodWithOrdinal ordinal generation = some m)
    (hm' : c.methodWithOrdinal ordinal generation' = some m') :
    m.key = m'.key ∧ m.generation = generation ∧ m'.generation = generation' := by
  obtain ⟨versions, hversions⟩ := loaded_iff_exists_lineage.mp h
  obtain ⟨hordinal, hgeneration, v, hv, hin⟩ := hversions.of_methodWithOrdinal hm
  obtain ⟨hordinal', hgeneration', v', hv', hin'⟩ := hversions.of_methodWithOrdinal hm'
  exact ⟨hversions.key_eq_of_ordinal_eq v hv v' hv' m hin m' hin' (hordinal.trans hordinal'.symm),
    hgeneration, hgeneration'⟩

end Class

/-- `Throwable.resolve?` of a frame that `Builder.push` has stored, in any later history of its class.
    A frame of a generation that can be stored is resolved to its method until a purge that follows the
    replacement of its version, and to nothing afterwards.  A frame of a later generation is never
    resolved to its method.  It is resolved to what its ordinal named in generation 65535, if that
    version was still kept when the frame was recorded, and until it is purged; that method has the name
    and signature of its own.  `Throwable.liveMethod?` does not take the frame for a live frame of that
    method, nor of any other than its own. -/
theorem Builder.resolve_of_pushed {b b' : Builder} (hb : b.Opened) {memory memory' : Memory}
    {c : Class} (hc : c.Loaded) {method : Method} {bci : Int}
    (hmethod : c.methodWithOrdinal method.ordinal method.generation = some method)
    (hpush : b.push memory c method bci = (.ok (), b', memory')) :
    ∃ f, b'.newest? = some f ∧
      ∀ (history : List ClassChange) (p : Program), p.get? c.id = some (c.evolve history) →
        (method.generation ≤ 65535 →
          (¬c.PurgedSince method.generation history → Throwable.resolve? p f = some method) ∧
          (c.PurgedSince method.generation history → Throwable.resolve? p f = none)) ∧
        (65535 < method.generation →
          (¬c.PurgedSince 65535 history →
            Throwable.resolve? p f = c.methodWithOrdinal method.ordinal 65535) ∧
          (c.PurgedSince 65535 history → Throwable.resolve? p f = none) ∧
          ∀ other, Throwable.resolve? p f = some other →
            other ≠ method ∧ other.generation = 65535 ∧ other.key = method.key) ∧
        ∀ other, Throwable.liveMethod? p f = some other →
          other = method ∧ method.generation < 65535 := by
  obtain ⟨f, hnewest, hf⟩ := (placed_push hb.placed hpush).2 rfl
  obtain ⟨v, hv, -⟩ := Option.bind_eq_some_iff.mp hmethod
  have hle := hc.le_of_version hv
  refine ⟨f, hnewest, fun history p hp => ⟨fun hfits => ?_, fun hlate => ?_, fun other hother => ?_⟩⟩
  -- A generation that is stored as it is
  · have hversion : Location.versionOf method.generation = method.generation :=
      Nat.min_eq_left hfits
    exact ⟨fun hkept => (hf.resolve?_of_kept hversion hle hp hkept).trans hmethod,
      hf.resolve?_of_purged hversion hle hp⟩
  -- A later one, which is stored as the largest version
  · have hversion : Location.versionOf method.generation = 65535 :=
      Location.versionOf_of_ge (Nat.le_of_lt hlate)
    have hle' : 65535 ≤ c.generation := Nat.le_trans (Nat.le_of_lt hlate) hle
    refine ⟨hf.resolve?_of_kept hversion hle' hp, hf.resolve?_of_purged hversion hle' hp,
      fun other hother => ?_⟩
    -- What is found is what the class named when the frame was recorded
    have hnamed : c.methodWithOrdinal method.ordinal 65535 = some other := by
      by_cases hpurged : c.PurgedSince 65535 history
      · rw [hf.resolve?_of_purged hversion hle' hp hpurged] at hother
        cases hother
      · rwa [hf.resolve?_of_kept hversion hle' hp hpurged] at hother
    obtain ⟨hkey, hgeneration, -⟩ := hc.key_eq_of_methodWithOrdinal hnamed hmethod
    refine ⟨?_, hgeneration, hkey⟩
    rintro rfl
    exact Nat.lt_irrefl _ (hgeneration ▸ hlate)
  · -- What is shown as live is of the stored version, which the largest version never is
    rw [hf.liveMethod?_eq hp] at hother
    by_cases hkeeps : c.Keeps method.generation history
    · rw [Class.filter_methodWithOrdinal_of_keeps hc hmethod hkeeps] at hother
      exact ⟨(Option.some.inj hother).symm, hkeeps.1⟩
    · rw [Class.filter_methodWithOrdinal_of_not_keeps hc hmethod hkeeps] at hother
      cases hother

/-! ## A class of any generation -/

namespace Class

/-- The class has generation `generation`, and has a method `run` and no other. -/
structure RunsOnly (c : Class) (generation : Nat) (m : Method) : Prop where
  loaded : c.Loaded
  id_eq : c.id = ⟨0⟩
  generation_eq : c.generation = generation
  nextOrdinal_eq : c.nextOrdinal = 1
  methods_eq : c.current.methods = #[m]
  key_eq : m.key = ("run", "()V")
  ordinal_eq : m.ordinal = 0
  method_generation_eq : m.generation = generation
  holder_eq : m.holder = c.id

namespace RunsOnly

variable {c : Class} {generation : Nat} {m : Method}

/-- `ClassVersion.withOrdinal` finds the one method there is. -/
private theorem withOrdinal_eq (h : c.RunsOnly generation m) : c.current.withOrdinal m.ordinal = some m := by
  rw [ClassVersion.withOrdinal, h.methods_eq]
  simp only [List.find?_toArray, List.find?_singleton, beq_self_eq_true, if_true]

/-- `Class.methodWithOrdinal` names the method by its ordinal and its generation. -/
theorem methodWithOrdinal_eq (h : c.RunsOnly generation m) :
    c.methodWithOrdinal m.ordinal m.generation = some m := by
  rw [methodWithOrdinal, h.method_generation_eq, ← h.generation_eq, version_generation,
    Option.bind_some, h.withOrdinal_eq]

/-- `Class.redefine` with `run` leads to the next generation, and keeps the version that was in
    force. -/
private theorem redefined (h : c.RunsOnly generation m) :
    ∃ (c' : Class) (m' : Method), c'.RunsOnly (generation + 1) m' ∧
      c'.previous = c.current :: c.previous := by
  have hdeclares : c.current.Declares (MethodSpec.key { name := "run" }) :=
    ⟨m, by rw [h.methods_eq]; exact Array.mem_singleton.mpr rfl, h.key_eq⟩
  have hadded : c.current.added [{ name := "run" }] = 0 :=
    ClassVersion.added_cons_of_declares hdeclares []
  obtain ⟨c', symbols', hredefine, hnext⟩ := c.redefine_of_room [{ name := "run" }] none
    SymbolTable.empty (by rw [hadded, h.nextOrdinal_eq]; decide)
  obtain ⟨hid, hgeneration, hprevious, hplaced, hspecs, hnumbered⟩ := redefine_ok hredefine
  obtain ⟨m', hlist, hspec⟩ := List.map_eq_singleton_iff.mp hspecs
  have hmethods : c'.current.methods = #[m'] := Array.toList_inj.mp hlist
  have hkey : m'.key = ("run", "()V") := congrArg MethodSpec.key hspec
  -- Its ordinal is that of the one method that was known
  obtain ⟨ordinal, hknown⟩ := Option.ne_none_iff_exists'.mp
    (ClassVersion.getElem?_ordinals_ne_none.mpr (hkey.symm ▸ hdeclares : c.current.Declares m'.key))
  obtain ⟨m'', hm'', -, hordinal⟩ := ClassVersion.exists_of_getElem?_ordinals hknown
  rw [h.methods_eq, Array.mem_singleton] at hm''
  have hkept := hnumbered.ordinal_of_known (hlist ▸ List.mem_singleton.mpr rfl) hknown
  have hmplaced := hplaced 0 (by rw [hmethods]; exact Nat.one_pos)
  simp only [hmethods] at hmplaced
  have hloaded : c'.Loaded := by
    have hchange := h.loaded.change (.redefine [{ name := "run" }] none SymbolTable.empty)
    rwa [change, hredefine] at hchange
  exact ⟨c', m', {
    loaded := hloaded
    id_eq := hid.trans h.id_eq
    generation_eq := hgeneration.trans (congrArg (· + 1) h.generation_eq)
    nextOrdinal_eq := by rw [hnext, hadded, h.nextOrdinal_eq]
    methods_eq := hmethods
    key_eq := hkey
    ordinal_eq := by rw [hkept, ← hordinal, hm'', h.ordinal_eq]
    method_generation_eq :=
      hmplaced.2.1.trans (hgeneration.trans (congrArg (· + 1) h.generation_eq))
    holder_eq := hmplaced.1 }, hprevious⟩

end RunsOnly

/-- There are `RunsOnly` classes of all generations. -/
private theorem exists_runsOnly (generation : Nat) : ∃ c m, RunsOnly c generation m := by
  -- Induction on the generation, as no run of 65536 redefinitions can be evaluated
  induction generation with
  | zero =>
    obtain ⟨c, m, symbols, hdefine, hnext, hmethods, hordinal, hof, hholder⟩ :
        ∃ c m symbols, Class.define { name := "app/Main", methods := [{ name := "run" }] } ⟨0⟩
          SymbolTable.empty = (.ok c, symbols) ∧ c.nextOrdinal = 1 ∧ c.current.methods = #[m] ∧
          m.ordinal = 0 ∧ m.generation = 0 ∧ m.holder = c.id :=
      ⟨_, _, _, rfl, rfl, rfl, rfl, rfl, rfl⟩
    obtain ⟨hid, hgeneration, -, -, hspecs, -⟩ := define_ok hdefine
    rw [hmethods] at hspecs
    have hkey : m.key = ("run", "()V") := congrArg MethodSpec.key (List.cons.inj hspecs).1
    exact ⟨c, m, .define hdefine, hid, hgeneration, hnext, hmethods, hkey, hordinal, hof, hholder⟩
  | succ generation ih =>
    obtain ⟨c, m, h⟩ := ih
    obtain ⟨c', m', h', -⟩ := h.redefined
    exact ⟨c', m', h'⟩

/-- `RunsOnly` at the first generation that cannot be stored exactly, while the one before it is kept:
    with its ordinal, the method of the one finds that of the other. -/
theorem exists_runsOnly_saturated : ∃ c m m', RunsOnly c 65536 m ∧
    c.methodWithOrdinal m.ordinal 65535 = some m' ∧ m'.generation = 65535 := by
  obtain ⟨c₀, m', h₀⟩ := exists_runsOnly 65535
  obtain ⟨c, m, h, hprevious⟩ := h₀.redefined
  obtain ⟨versions, hversions⟩ := loaded_iff_exists_lineage.mp h.loaded
  have hkept : c₀.current ∈ c.current :: c.previous := by
    rw [hprevious]
    exact List.mem_cons_of_mem c.current List.mem_cons_self
  have hfound : c.version 65535 = some c₀.current :=
    h₀.generation_eq ▸ hversions.version_of_kept hkept
  -- Both methods have the ordinal of the one method of their class
  refine ⟨c, m, m', h, ?_, h₀.method_generation_eq⟩
  rw [methodWithOrdinal, hfound, Option.bind_some, h.ordinal_eq, ← h₀.ordinal_eq,
    h₀.withOrdinal_eq]

/-- `Program.get?` of a program with one class. -/
theorem RunsOnly.get?_program {c c' : Class} {generation : Nat} {m : Method}
    (h : c.RunsOnly generation m) :
    (Program.mk SymbolTable.empty #[c'] Table.empty).get? c.id = some c' := by
  rw [h.id_eq]
  rfl

end Class

/-- `Builder.resolve_of_pushed` for a frame of generation 65536: it is resolved to the method of
    generation 65535 until that is purged, without being live. -/
theorem Builder.resolve_of_pushed_saturated :
    ∃ (c : Class) (method other : Method) (b b' : Builder) (memory memory' : Memory)
      (f : StoredFrame) (p p' : Program),
      c.methodWithOrdinal method.ordinal method.generation = some method ∧
      method.generation = 65536 ∧ other.generation = 65535 ∧
      b.push memory c method 0 = (.ok (), b', memory') ∧ b'.newest? = some f ∧
      p.get? c.id = some c ∧ Throwable.resolve? p f = some other ∧
      Throwable.liveMethod? p f = none ∧
      p'.get? c.id = some (c.evolve [.purge]) ∧ Throwable.resolve? p' f = none := by
  obtain ⟨c, method, other, h, hother, hgeneration⟩ := Class.exists_runsOnly_saturated
  obtain ⟨b, b', memory, memory', hb, hpush⟩ :=
    exists_push c method (show Location.fits 0 = true by decide)
  obtain ⟨f, hnewest, hfate⟩ := resolve_of_pushed hb h.loaded h.methodWithOrdinal_eq hpush
  have hlate : 65535 < method.generation := h.method_generation_eq ▸ by decide
  refine ⟨c, method, other, b, b', memory, memory', f, _, _, h.methodWithOrdinal_eq,
    h.method_generation_eq, hgeneration, hpush, hnewest, h.get?_program, ?_, ?_, h.get?_program, ?_⟩
  · obtain ⟨-, hsaturated, -⟩ := hfate [] _ h.get?_program
    exact ((hsaturated hlate).1 (c.not_purgedSince_nil 65535)).trans hother
  · obtain ⟨-, -, hlive⟩ := hfate [] _ h.get?_program
    refine Option.eq_none_iff_forall_ne_some.mpr fun m hm => ?_
    have hlt := (hlive m hm).2
    omega
  · obtain ⟨-, hsaturated, -⟩ := hfate [.purge] _ h.get?_program
    refine (hsaturated hlate).2.1 ⟨[], [], rfl, ?_⟩
    rw [show c.evolve [] = c from rfl, h.generation_eq]
    decide

/-- `Throwable.resolve?` may resolve a stored frame to another method than it was recorded from. -/
theorem Builder.not_resolved_to_pushed :
    ¬∀ (b b' : Builder) (memory memory' : Memory) (c : Class) (method : Method) (bci : Int)
      (f : StoredFrame), b.Opened → c.Loaded →
      c.methodWithOrdinal method.ordinal method.generation = some method →
      b.push memory c method bci = (.ok (), b', memory') → b'.newest? = some f →
      ∀ (history : List ClassChange) (p : Program), p.get? c.id = some (c.evolve history) →
        Throwable.resolve? p f = none ∨ Throwable.resolve? p f = some method := by
  intro halways
  obtain ⟨c, method, other, h, hother, hgeneration⟩ := Class.exists_runsOnly_saturated
  obtain ⟨b, b', memory, memory', hb, hpush⟩ :=
    exists_push c method (show Location.fits 0 = true by decide)
  obtain ⟨f, hnewest, hf⟩ := (placed_push hb.placed hpush).2 rfl
  have hversion : Location.versionOf method.generation = 65535 := h.method_generation_eq ▸ rfl
  have hle : 65535 ≤ c.generation := h.generation_eq ▸ by decide
  have hresolved : Throwable.resolve? _ f = some other :=
    (hf.resolve?_of_kept hversion hle h.get?_program (c.not_purgedSince_nil 65535)).trans hother
  rcases halways b b' memory memory' c method 0 f hb h.loaded h.methodWithOrdinal_eq hpush hnewest []
    _ h.get?_program with hnone | hsome
  · exact nomatch hnone.symm.trans hresolved
  · obtain rfl := Option.some.inj (hsome.symm.trans hresolved)
    exact nomatch hgeneration.symm.trans h.method_generation_eq

end StackTrace
