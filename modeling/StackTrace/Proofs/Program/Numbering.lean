import Mathlib.Data.List.Pairwise
import StackTrace.Program.Class

/-!
# How the methods of a version get their ordinals

A redefinition knows the ordinals of the version before it by name and signature, and the next unused
one.  A method whose name and signature are known keeps their ordinal, any other takes the next unused
one; a first version is numbered in the same way, with nothing known.

## Key results

- `ClassVersion.getElem?_ordinals`: what is known of a version
- `Class.Numbered`: how a list of methods gets its ordinals, with `Numbered.pairwise` and
  `Numbered.pairwise_ordinal_eq_iff`
- `Class.define_ok`, `Class.redefine_ok`: what a definition and a redefinition make
- `Class.define_of_room`, `Class.define_of_no_room`, `Class.redefine_of_room`,
  `Class.redefine_of_no_room`: a class is refused exactly when the ordinals run out
-/

namespace StackTrace

/-- What a method is known by from version to version: the texts of its name and signature. -/
def Method.key (m : Method) : String × String := (m.name.text, m.signature.text)

/-- The `Method.key` of the method that a description is loaded as. -/
def MethodSpec.key (spec : MethodSpec) : String × String := (spec.name, spec.signature)

/-- What `MethodSpec.load` leaves of a description in its method: native code has no size. -/
def MethodSpec.stored (spec : MethodSpec) : MethodSpec :=
  { spec with codeSize := if spec.flags.native then 0 else spec.codeSize }

/-- The description of a method as it stands, which says nothing of its class, version, place and
    ordinal. -/
def Method.spec (m : Method) : MethodSpec :=
  ⟨m.name.text, m.signature.text, m.flags, m.codeSize, m.lines⟩

/-- `MethodSpec.load` makes a method with the numbers that it is given. -/
private theorem MethodSpec.load_ok {spec : MethodSpec} {holder : ClassId} {generation place ordinal : Nat}
    {symbols symbols' : SymbolTable} {m : Method}
    (h : spec.load holder generation place ordinal symbols = (m, symbols')) :
    m.holder = holder ∧ m.generation = generation ∧ m.place = place ∧ m.ordinal = ordinal ∧
      m.spec = spec.stored := by
  obtain rfl : m = (spec.load holder generation place ordinal symbols).1 := congrArg Prod.fst h.symm
  exact ⟨rfl, rfl, rfl, rfl, by simp only [load, Method.spec, stored, SymbolTable.text_intern]⟩

/-- `Method.key` is what the description of the method is known by. -/
theorem map_key_of_map_spec {ms : List Method} {specs : List MethodSpec}
    (h : ms.map Method.spec = specs.map MethodSpec.stored) :
    ms.map Method.key = specs.map MethodSpec.key := by
  have hkeys := congrArg (List.map MethodSpec.key) h
  rw [List.map_map, List.map_map] at hkeys
  exact hkeys

/-- `List.map` over the methods, at the place of one of them. -/
theorem getElem?_of_map_eq {α : Type} {f : Method → α} {methods : Array Method} {values : List α}
    (h : methods.toList.map f = values) {i : Nat} (hi : i < methods.size) :
    values[i]? = some (f methods[i]) := by
  rw [← h, List.getElem?_map, Array.getElem?_toList, Array.getElem?_eq_getElem hi, Option.map_some]

namespace ClassVersion

variable {v : ClassVersion} {key : String × String} {ordinal : Nat}

/-- Whether the version has a method with the `Method.key`. -/
def Declares (v : ClassVersion) (key : String × String) : Prop := ∃ m ∈ v.methods, m.key = key

/-- A version `ClassVersion.Declares` what some method of it is known by. -/
theorem declares_iff : v.Declares key ↔ key ∈ v.methods.toList.map Method.key := by
  simp only [Declares, List.mem_map, Array.mem_toList_iff]

/-- `Std.HashMap.insert` of two methods of equal name and signature lets the later count. -/
private theorem getElem?_foldl_insert (ms : List Method) (known : Std.HashMap (String × String) Nat)
    (key : String × String) :
    (ms.foldl (fun known m => known.insert (m.name.text, m.signature.text) m.ordinal) known)[key]? =
      ((ms.reverse.find? (·.key == key)).map (·.ordinal)).or known[key]? := by
  induction ms generalizing known with
  | nil => rfl
  | cons m ms ih =>
    rw [List.foldl_cons, ih, List.reverse_cons, List.find?_append, List.find?_singleton,
      Std.HashMap.getElem?_insert, ← Method.key]
    cases ms.reverse.find? (·.key == key) <;> cases m.key == key <;> rfl

/-- `ClassVersion.ordinals` is the ordinal of the last method with the key. -/
theorem getElem?_ordinals (v : ClassVersion) (key : String × String) :
    v.ordinals[key]? = (v.methods.toList.reverse.find? (·.key == key)).map (·.ordinal) := by
  rw [ordinals, ← Array.foldl_toList, getElem?_foldl_insert, Std.HashMap.getElem?_empty,
    Option.or_none]

/-- `ClassVersion.ordinals` are ordinals of methods. -/
theorem exists_of_getElem?_ordinals (h : v.ordinals[key]? = some ordinal) :
    ∃ m ∈ v.methods, m.key = key ∧ m.ordinal = ordinal := by
  rw [getElem?_ordinals, Option.map_eq_some_iff] at h
  obtain ⟨m, hfind, hordinal⟩ := h
  have hkey := List.find?_some hfind
  exact ⟨m, Array.mem_toList_iff.mp (List.mem_reverse.mp (List.mem_of_find?_eq_some hfind)),
    beq_iff_eq.mp hkey, hordinal⟩

/-- `ClassVersion.ordinals` knows all names and signatures of the version, and no others. -/
theorem getElem?_ordinals_eq_none : v.ordinals[key]? = none ↔ ¬v.Declares key := by
  rw [getElem?_ordinals, Option.map_eq_none_iff, List.find?_eq_none]
  constructor
  · rintro hnone ⟨m, hm, hkey⟩
    exact hnone m (List.mem_reverse.mpr (Array.mem_toList_iff.mpr hm)) (beq_iff_eq.mpr hkey)
  · intro hnot m hm hkey
    exact hnot ⟨m, Array.mem_toList_iff.mp (List.mem_reverse.mp hm), beq_iff_eq.mp hkey⟩

/-- `ClassVersion.ordinals` knows what the version declares. -/
theorem getElem?_ordinals_ne_none : v.ordinals[key]? ≠ none ↔ v.Declares key := by
  rw [Ne, getElem?_ordinals_eq_none, Classical.not_not]

/-- `ClassVersion.ordinals` are below what the ordinals of the methods are below. -/
theorem ordinal_lt_of_known {bound : Nat} (hbelow : ∀ m ∈ v.methods, m.ordinal < bound) :
    ∀ (key : String × String) (ordinal : Nat), v.ordinals[key]? = some ordinal → ordinal < bound := by
  intro key ordinal hknown
  obtain ⟨m, hm, -, rfl⟩ := exists_of_getElem?_ordinals hknown
  exact hbelow m hm

/-- `ClassVersion.ordinals` has an ordinal for one name and signature, if it is that of methods of one
    only. -/
theorem key_eq_of_known
    (hsame : ∀ m ∈ v.methods, ∀ m' ∈ v.methods, m.ordinal = m'.ordinal → m.key = m'.key) :
    ∀ (key key' : String × String) (ordinal : Nat), v.ordinals[key]? = some ordinal →
      v.ordinals[key']? = some ordinal → key = key' := by
  intro key key' ordinal hknown hknown'
  obtain ⟨m, hm, rfl, hordinal⟩ := exists_of_getElem?_ordinals hknown
  obtain ⟨m', hm', rfl, hordinal'⟩ := exists_of_getElem?_ordinals hknown'
  exact hsame m hm m' hm' (hordinal.trans hordinal'.symm)

end ClassVersion

namespace Class

/-! ## One version -/

/-- How the methods of a version get their ordinals in turn, the next unused one being `next` before
    and `after` in the end: a method whose name and signature are known keeps the ordinal known for
    them, any other takes the next unused one. -/
inductive Numbered (known : Std.HashMap (String × String) Nat) : Nat → List Method → Nat → Prop
  | nil {next : Nat} : Numbered known next [] next
  | kept {next after : Nat} {m : Method} {ms : List Method} (h : known[m.key]? = some m.ordinal)
      (rest : Numbered known next ms after) : Numbered known next (m :: ms) after
  | fresh {after : Nat} {m : Method} {ms : List Method} (h : known[m.key]? = none)
      (rest : Numbered known (m.ordinal + 1) ms after) : Numbered known m.ordinal (m :: ms) after

/-- A `Std.HashMap` without entries knows nothing, as before the first version. -/
theorem not_known (key : String × String) (ordinal : Nat) :
    (∅ : Std.HashMap (String × String) Nat)[key]? ≠ some ordinal :=
  fun hknown => nomatch Std.HashMap.getElem?_empty.symm.trans hknown

namespace Numbered

variable {known : Std.HashMap (String × String) Nat} {next after : Nat} {ms : List Method}

/-- `Numbered` takes the next unused ordinal up. -/
theorem next_le (h : Numbered known next ms after) : next ≤ after := by
  induction h with
  | nil => exact Nat.le_refl _
  | kept _ _ ih => exact ih
  | fresh _ _ ih => exact Nat.le_of_succ_le ih

/-- `Numbered` takes one ordinal for each method at most. -/
theorem after_le (h : Numbered known next ms after) : after ≤ next + ms.length := by
  induction h with
  | nil => exact Nat.le_refl _
  | kept _ _ ih => exact Nat.le_succ_of_le ih
  | fresh _ _ ih =>
    rw [List.length_cons]
    omega

/-- `Numbered` gives a method that is known the ordinal that it had. -/
theorem ordinal_of_known (h : Numbered known next ms after) {m : Method} (hm : m ∈ ms)
    {ordinal : Nat} (hknown : known[m.key]? = some ordinal) : m.ordinal = ordinal := by
  induction h with
  | nil => exact nomatch hm
  | @kept _ _ m' _ h _ ih =>
    rcases List.mem_cons.mp hm with rfl | hm
    · exact Option.some.inj (h.symm.trans hknown)
    · exact ih hm
  | @fresh _ m' _ h _ ih =>
    rcases List.mem_cons.mp hm with rfl | hm
    · exact nomatch h.symm.trans hknown
    · exact ih hm

/-- `Numbered` gives a method that is not known an unused ordinal. -/
theorem le_ordinal_of_unknown (h : Numbered known next ms after) {m : Method} (hm : m ∈ ms)
    (hknown : known[m.key]? = none) : next ≤ m.ordinal := by
  induction h with
  | nil => exact nomatch hm
  | @kept _ _ m' _ h _ ih =>
    rcases List.mem_cons.mp hm with rfl | hm
    · exact nomatch h.symm.trans hknown
    · exact ih hm
  | @fresh _ m' _ h _ ih =>
    rcases List.mem_cons.mp hm with rfl | hm
    · exact Nat.le_refl _
    · exact Nat.le_of_succ_le (ih hm)

section Below

variable (hbelow : ∀ (key : String × String) (ordinal : Nat),
  known[key]? = some ordinal → ordinal < next)

include hbelow

/-- `Numbered` gives ordinals below the next unused one. -/
theorem ordinal_lt (h : Numbered known next ms after) : ∀ m ∈ ms, m.ordinal < after := by
  induction h with
  | nil => exact fun m hm => nomatch hm
  | kept h rest ih =>
    intro m hm
    rcases List.mem_cons.mp hm with rfl | hm
    · exact Nat.lt_of_lt_of_le (hbelow _ _ h) rest.next_le
    · exact ih hbelow m hm
  | fresh h rest ih =>
    intro m hm
    rcases List.mem_cons.mp hm with rfl | hm
    · exact rest.next_le
    · exact ih (fun key ordinal hknown => Nat.lt_succ_of_lt (hbelow key ordinal hknown)) m hm

/-- `Numbered` gives a method that is not known a larger ordinal than all the methods before it. -/
theorem pairwise (h : Numbered known next ms after) :
    ms.Pairwise fun m m' => known[m'.key]? = none → m.ordinal < m'.ordinal := by
  induction h with
  | nil => exact List.Pairwise.nil
  | kept h rest ih =>
    refine List.Pairwise.cons (fun m hm hnone => ?_) (ih hbelow)
    exact Nat.lt_of_lt_of_le (hbelow _ _ h) (rest.le_ordinal_of_unknown hm hnone)
  | fresh h rest ih =>
    refine List.Pairwise.cons (fun m hm hnone => rest.le_ordinal_of_unknown hm hnone)
      (ih fun key ordinal hknown => Nat.lt_succ_of_lt (hbelow key ordinal hknown))

/-- `Numbered` lets the later of two methods of a version share the ordinal of the earlier exactly if
    they have the same name and signature and these are known. -/
theorem pairwise_ordinal_eq_iff (h : Numbered known next ms after)
    (hinj : ∀ (key key' : String × String) (ordinal : Nat), known[key]? = some ordinal →
      known[key']? = some ordinal → key = key') :
    ms.Pairwise fun m m' => m.ordinal = m'.ordinal ↔ m.key = m'.key ∧ known[m'.key]? ≠ none := by
  refine (h.pairwise hbelow).imp_of_mem fun {m m'} hm hm' hless => ⟨fun heq => ?_, fun heq => ?_⟩
  -- By whether the later is known, and then whether the earlier is
  · cases hknown' : known[m'.key]? with
    | none => exact absurd heq (Nat.ne_of_lt (hless hknown'))
    | some ordinal =>
      have hordinal' := h.ordinal_of_known hm' hknown'
      refine ⟨?_, nofun⟩
      cases hknown : known[m.key]? with
      | none =>
        -- What is new has an ordinal that was not in use before
        have hge := h.le_ordinal_of_unknown hm hknown
        have hlt := hbelow _ _ hknown'
        omega
      | some ordinal' =>
        have hordinal := h.ordinal_of_known hm hknown
        refine hinj _ _ ordinal ?_ hknown'
        rw [hknown, ← hordinal, heq, hordinal']
  · obtain ⟨hkey, hknown'⟩ := heq
    obtain ⟨ordinal, hknown'⟩ := Option.ne_none_iff_exists'.mp hknown'
    rw [h.ordinal_of_known hm' hknown', h.ordinal_of_known hm (hkey ▸ hknown')]

/-- `Numbered` gives different names and signatures different ordinals, if that is so of the known
    ones. -/
theorem key_eq_of_ordinal_eq (h : Numbered known next ms after)
    (hinj : ∀ (key key' : String × String) (ordinal : Nat), known[key]? = some ordinal →
      known[key']? = some ordinal → key = key') :
    ∀ m ∈ ms, ∀ m' ∈ ms, m.ordinal = m'.ordinal → m.key = m'.key := by
  have hpairs : ms.Pairwise fun m m' => m.ordinal = m'.ordinal → m.key = m'.key :=
    (h.pairwise_ordinal_eq_iff hbelow hinj).imp fun hiff heq => (hiff.mp heq).1
  intro m hm m' hm'
  exact hpairs.forall_of_forall_of_flip (fun _ _ _ => rfl)
    (hpairs.imp fun h heq => (h heq.symm).symm) hm hm'

end Below

end Numbered

/-- `ordinalAt` does not change the number that it lets through. -/
theorem ordinalAt_ok {index ordinal : Nat} (h : ordinalAt index = .ok ordinal) :
    ordinal = index := by
  unfold ordinalAt at h
  split at h
  · exact (Except.ok.inj h).symm
  · exact nomatch h

/-- The methods know their class, their version and their place in it. -/
def Placed (holder : ClassId) (generation : Nat) (methods : Array Method) : Prop :=
  ∀ (i : Nat) (hi : i < methods.size),
    methods[i].holder = holder ∧ methods[i].generation = generation ∧ methods[i].place = i

/-- `Placed` holds of no methods. -/
private theorem Placed.empty {holder : ClassId} {generation : Nat} : Placed holder generation #[] :=
  fun _ hi => nomatch hi

/-- `Placed` survives a method that knows its place behind the others. -/
private theorem Placed.push {holder : ClassId} {generation : Nat} {methods : Array Method}
    (h : Placed holder generation methods) {m : Method} (hholder : m.holder = holder)
    (hgeneration : m.generation = generation) (hplace : m.place = methods.size) :
    Placed holder generation (methods.push m) := by
  intro i hi
  rw [Array.getElem_push]
  split
  · exact h i _
  · rename_i hlast
    rw [Array.size_push] at hi
    exact ⟨hholder, hgeneration, by omega⟩

/-- What loading `specs` behind the methods `loaded` comes to: the new methods are as described, are
    `Numbered` in turn, and all of them know their places. -/
structure LoadedBehind (holder : ClassId) (generation : Nat)
    (known : Std.HashMap (String × String) Nat) (loaded : Array Method) (next : Nat)
    (specs : List MethodSpec) (methods : Array Method) (after : Nat) : Prop where
  placed : Placed holder generation methods
  numbered : ∃ new, methods.toList = loaded.toList ++ new ∧
    new.map Method.spec = specs.map MethodSpec.stored ∧ Numbered known next new after

namespace LoadedBehind

variable {holder : ClassId} {generation next after : Nat}
  {known : Std.HashMap (String × String) Nat} {loaded methods : Array Method} {spec : MethodSpec}
  {specs : List MethodSpec} {m : Method}

/-- `LoadedBehind` with nothing left to load. -/
private theorem nil (h : Placed holder generation loaded) :
    LoadedBehind holder generation known loaded next [] loaded next :=
  ⟨h, [], (List.append_nil _).symm, rfl, .nil⟩

/-- `LoadedBehind` with one more that is loaded before the others, and gets its ordinal as they do. -/
private theorem cons {next' : Nat} (hspec : m.spec = spec.stored)
    (hnumbered : ∀ {new}, Numbered known next' new after → Numbered known next (m :: new) after)
    (rest : LoadedBehind holder generation known (loaded.push m) next' specs methods after) :
    LoadedBehind holder generation known loaded next (spec :: specs) methods after := by
  obtain ⟨hplaced, new, hnew, hspecs, hrest⟩ := rest
  refine ⟨hplaced, m :: new, ?_, ?_, hnumbered hrest⟩
  · rw [hnew, Array.toList_push, ← List.append_cons]
  · rw [List.map_cons, List.map_cons, hspec, hspecs]

end LoadedBehind

/-- `Class.loadFirst` numbers the methods of a first version with nothing known. -/
private theorem loadFirst_ok {holder : ClassId} {loaded methods : Array Method}
    {symbols symbols' : SymbolTable} {specs : List MethodSpec}
    (h : loadFirst holder loaded symbols specs = (.ok methods, symbols'))
    (hplaced : Placed holder 0 loaded) :
    LoadedBehind holder 0 ∅ loaded loaded.size specs methods methods.size := by
  -- Induction on the methods yet to load, behind those that are loaded
  induction specs generalizing loaded symbols with
  | nil =>
    cases h
    exact .nil hplaced
  | cons spec specs ih =>
    unfold loadFirst at h
    split at h
    · exact nomatch h
    · rename_i ordinal hordinal
      obtain rfl := ordinalAt_ok hordinal
      obtain ⟨⟨m, symbols''⟩, hload⟩ : ∃ x,
        spec.load holder 0 loaded.size loaded.size symbols = x := ⟨_, rfl⟩
      obtain ⟨hholder, hgeneration, hplace, hm, hspec⟩ := MethodSpec.load_ok hload
      rw [hload] at h
      have hrest := ih h (hplaced.push hholder hgeneration hplace)
      rw [Array.size_push, ← hm] at hrest
      exact hm ▸ hrest.cons hspec (.fresh Std.HashMap.getElem?_empty)

/-- `Class.loadLater` numbers the methods of a later version after what is known. -/
private theorem loadLater_ok {holder : ClassId} {generation next after : Nat}
    {known : Std.HashMap (String × String) Nat} {loaded methods : Array Method}
    {symbols symbols' : SymbolTable} {specs : List MethodSpec}
    (h : loadLater holder generation known loaded next symbols specs =
      (.ok (methods, after), symbols'))
    (hplaced : Placed holder generation loaded) :
    LoadedBehind holder generation known loaded next specs methods after := by
  -- Induction on the methods yet to load; a known one leaves the next ordinal where it is
  induction specs generalizing loaded next symbols with
  | nil =>
    cases h
    exact .nil hplaced
  | cons spec specs ih =>
    unfold loadLater at h
    split at h
    · rename_i ordinal hknown
      obtain ⟨⟨m, symbols''⟩, hload⟩ : ∃ x,
        spec.load holder generation loaded.size ordinal symbols = x := ⟨_, rfl⟩
      obtain ⟨hholder, hgeneration, hplace, hm, hspec⟩ := MethodSpec.load_ok hload
      rw [hload] at h
      have hkey : m.key = (spec.name, spec.signature) := congrArg MethodSpec.key hspec
      exact (ih h (hplaced.push hholder hgeneration hplace)).cons hspec
        (.kept (by rw [hkey, hknown, hm]))
    · rename_i hknown
      split at h
      · exact nomatch h
      · rename_i after' hafter
        obtain rfl := ordinalAt_ok hafter
        obtain ⟨⟨m, symbols''⟩, hload⟩ : ∃ x,
          spec.load holder generation loaded.size next symbols = x := ⟨_, rfl⟩
        obtain ⟨hholder, hgeneration, hplace, rfl, hspec⟩ := MethodSpec.load_ok hload
        rw [hload] at h
        have hkey : m.key = (spec.name, spec.signature) := congrArg MethodSpec.key hspec
        exact (ih h (hplaced.push hholder hgeneration hplace)).cons hspec
          (.fresh (by rw [hkey, hknown]))

/-- `Class.define` starts a class with one version, at generation 0, whose methods are numbered in
    order. -/
theorem define_ok {d : ClassDefinition} {id : ClassId} {symbols symbols' : SymbolTable} {c : Class}
    (h : Class.define d id symbols = (.ok c, symbols')) :
    c.id = id ∧ c.generation = 0 ∧ c.previous = [] ∧ Placed c.id c.generation c.current.methods ∧
      c.current.methods.toList.map Method.spec = d.methods.map MethodSpec.stored ∧
      Numbered ∅ 0 c.current.methods.toList c.nextOrdinal := by
  unfold define at h
  split at h
  · exact nomatch h
  · rename_i methods _ hload
    split at h
    · exact nomatch h
    · rename_i nextOrdinal hnext
      obtain rfl := ordinalAt_ok hnext
      obtain ⟨hplaced, new, hnew, hspecs, hnumbered⟩ := loadFirst_ok hload .empty
      obtain rfl : methods.toList = new := hnew
      cases h
      exact ⟨rfl, rfl, rfl, hplaced, hspecs, hnumbered⟩

/-- `Class.redefine` puts one version before those there were, one generation higher, whose methods are
    numbered after those of the version that was in force. -/
theorem redefine_ok {c c' : Class} {methods : List MethodSpec} {sourceFile : Option String}
    {symbols symbols' : SymbolTable}
    (h : c.redefine methods sourceFile symbols = (.ok c', symbols')) :
    c'.id = c.id ∧ c'.generation = c.generation + 1 ∧ c'.previous = c.current :: c.previous ∧
      Placed c'.id c'.generation c'.current.methods ∧
      c'.current.methods.toList.map Method.spec = methods.map MethodSpec.stored ∧
      Numbered c.current.ordinals c.nextOrdinal c'.current.methods.toList c'.nextOrdinal := by
  unfold redefine at h
  dsimp only at h
  split at h
  · exact nomatch h
  · rename_i loaded nextOrdinal _ hload
    obtain ⟨hplaced, new, hnew, hspecs, hnumbered⟩ := loadLater_ok hload .empty
    obtain rfl : loaded.toList = new := hnew
    cases h
    exact ⟨rfl, rfl, rfl, hplaced, hspecs, hnumbered⟩

/-! ## When the ordinals run out -/

/-- How many of the listed methods have a key that is not in `known`. -/
def unknown (known : Std.HashMap (String × String) Nat) (specs : List MethodSpec) : Nat :=
  specs.countP fun spec => known[spec.key]?.isNone

/-- `unknown` does not count a method that is known. -/
private theorem unknown_cons_of_known {known : Std.HashMap (String × String) Nat} {spec : MethodSpec}
    {ordinal : Nat} (h : known[spec.key]? = some ordinal) (specs : List MethodSpec) :
    unknown known (spec :: specs) = unknown known specs :=
  List.countP_cons_of_neg (by rw [h]; exact Bool.false_ne_true)

/-- `unknown` counts a method that is not known. -/
private theorem unknown_cons_of_unknown {known : Std.HashMap (String × String) Nat} {spec : MethodSpec}
    (h : known[spec.key]? = none) (specs : List MethodSpec) :
    unknown known (spec :: specs) = unknown known specs + 1 :=
  List.countP_cons_of_pos (by rw [h]; rfl)

section Loading

variable (holder : ClassId) (generation : Nat) (known : Std.HashMap (String × String) Nat)
  (loaded : Array Method) (symbols : SymbolTable) {next : Nat} {specs : List MethodSpec}

/-- `Class.loadFirst` numbers the methods if there are ordinals for all of them. -/
private theorem loadFirst_of_room (hroom : loaded.size + specs.length ≤ 65536) :
    ∃ (methods : Array Method) (symbols' : SymbolTable),
      loadFirst holder loaded symbols specs = (.ok methods, symbols') ∧
        methods.size = loaded.size + specs.length := by
  induction specs generalizing loaded symbols with
  | nil => exact ⟨loaded, symbols, rfl, rfl⟩
  | cons spec specs ih =>
    rw [List.length_cons] at hroom
    have hordinal : ordinalAt loaded.size = .ok loaded.size := if_pos (by omega)
    obtain ⟨m, symbols₁, hload⟩ : ∃ m symbols₁,
      spec.load holder 0 loaded.size loaded.size symbols = (m, symbols₁) := ⟨_, _, rfl⟩
    have hsize : (loaded.push m).size + specs.length = loaded.size + (specs.length + 1) := by
      rw [Array.size_push]
      omega
    obtain ⟨methods, symbols', hrest, hmethods⟩ := ih (loaded.push m) symbols₁ (by omega)
    refine ⟨methods, symbols', ?_, hmethods.trans hsize⟩
    simp only [loadFirst, hordinal, hload, hrest]

/-- `Class.loadFirst` refuses of the methods of a first version the one in place 65536. -/
private theorem loadFirst_of_no_room (hle : loaded.size ≤ 65536)
    (hfull : 65536 < loaded.size + specs.length) :
    ∃ symbols', loadFirst holder loaded symbols specs = (.error .tooManyMethods, symbols') := by
  induction specs generalizing loaded symbols with
  | nil =>
    rw [List.length_nil] at hfull
    omega
  | cons spec specs ih =>
    rw [List.length_cons] at hfull
    unfold loadFirst
    -- Refused here, or further on, where there is less room
    by_cases hlast : loaded.size ≤ 65535
    · have hordinal : ordinalAt loaded.size = .ok loaded.size := if_pos hlast
      rw [hordinal]
      refine ih _ _ ?_ ?_ <;> rw [Array.size_push] <;> omega
    · have hordinal : ordinalAt loaded.size = .error .tooManyMethods := if_neg hlast
      rw [hordinal]
      exact ⟨symbols, rfl⟩

/-- `Class.loadFirst` can number 65536 listed methods, all from nought. -/
theorem loadFirst_of_le (hle : specs.length ≤ 65536) :
    ∃ (methods : Array Method) (symbols' : SymbolTable),
      loadFirst holder #[] symbols specs = (.ok methods, symbols') ∧
        methods.size = specs.length := by
  have hsum : (#[] : Array Method).size + specs.length = specs.length := Nat.zero_add _
  obtain ⟨methods, symbols', hload, hsize⟩ :=
    loadFirst_of_room holder #[] symbols (Nat.le_trans (Nat.le_of_eq hsum) hle)
  exact ⟨methods, symbols', hload, hsize.trans hsum⟩

/-- `Class.loadFirst` refuses more than 65536 listed methods. -/
private theorem loadFirst_of_lt (hlt : 65536 < specs.length) :
    ∃ symbols', loadFirst holder #[] symbols specs = (.error .tooManyMethods, symbols') :=
  loadFirst_of_no_room holder #[] symbols (Nat.zero_le _) (by rwa [Array.size_empty, Nat.zero_add])

/-- `Class.loadLater` takes as many ordinals as it lists methods that are not known. -/
private theorem loadLater_of_room (hroom : next + unknown known specs ≤ 65535) :
    ∃ (methods : Array Method) (symbols' : SymbolTable),
      loadLater holder generation known loaded next symbols specs =
        (.ok (methods, next + unknown known specs), symbols') := by
  -- Induction on the methods; only those that are not known use up room
  induction specs generalizing loaded next symbols with
  | nil => exact ⟨loaded, symbols, rfl⟩
  | cons spec specs ih =>
    unfold loadLater
    split
    · rename_i ordinal hknown
      rw [unknown_cons_of_known hknown] at hroom ⊢
      exact ih _ _ hroom
    · rename_i hknown
      rw [unknown_cons_of_unknown hknown] at hroom ⊢
      have hordinal : ordinalAt (next + 1) = .ok (next + 1) := if_pos (by omega)
      have hsum : next + (unknown known specs + 1) = next + 1 + unknown known specs := by omega
      rw [hordinal, hsum]
      exact ih _ _ (by omega)

/-- `Class.loadLater` refuses more methods that are not known than there are ordinals. -/
private theorem loadLater_of_no_room (hle : next ≤ 65535) (hfull : 65535 < next + unknown known specs) :
    ∃ symbols', loadLater holder generation known loaded next symbols specs =
      (.error .tooManyMethods, symbols') := by
  induction specs generalizing loaded next symbols with
  | nil =>
    have hnone : unknown known [] = 0 := rfl
    omega
  | cons spec specs ih =>
    unfold loadLater
    split
    · rename_i ordinal hknown
      rw [unknown_cons_of_known hknown] at hfull
      exact ih _ _ hle hfull
    · rename_i hknown
      rw [unknown_cons_of_unknown hknown] at hfull
      -- Refused here, or further on
      by_cases hlast : next + 1 ≤ 65535
      · have hordinal : ordinalAt (next + 1) = .ok (next + 1) := if_pos hlast
        rw [hordinal]
        exact ih _ _ hlast (by omega)
      · have hordinal : ordinalAt (next + 1) = .error .tooManyMethods := if_neg hlast
        rw [hordinal]
        exact ⟨symbols, rfl⟩

end Loading

/-- `Class.define` makes a class if its methods can be numbered and there is a next unused ordinal. -/
theorem define_of_room {d : ClassDefinition} (hroom : d.methods.length ≤ 65535) (id : ClassId)
    (symbols : SymbolTable) : ∃ (c : Class) (symbols' : SymbolTable),
      define d id symbols = (.ok c, symbols') ∧ c.nextOrdinal = d.methods.length := by
  have hle : d.methods.length ≤ 65536 := by omega
  obtain ⟨methods, symbols₁, hload, hsize⟩ := loadFirst_of_le id symbols hle
  have hordinal : ordinalAt methods.size = .ok methods.size := if_pos (by omega)
  unfold define
  rw [hload]
  dsimp only
  rw [hordinal]
  exact ⟨_, _, rfl, hsize⟩

/-- `Class.define` refuses a class with more than 65535 methods. -/
theorem define_of_no_room {d : ClassDefinition} (hfull : 65535 < d.methods.length) (id : ClassId)
    (symbols : SymbolTable) :
    ∃ symbols', define d id symbols = (.error .tooManyMethods, symbols') := by
  by_cases hle : d.methods.length ≤ 65536
  · -- The methods can be numbered, but there is no next unused ordinal
    obtain ⟨methods, symbols₁, hload, hsize⟩ := loadFirst_of_le id symbols hle
    have hordinal : ordinalAt methods.size = .error .tooManyMethods := if_neg (by omega)
    unfold define
    rw [hload]
    dsimp only
    rw [hordinal]
    exact ⟨symbols₁, rfl⟩
  · obtain ⟨symbols', hload⟩ := loadFirst_of_lt id symbols (Nat.lt_of_not_le hle)
    unfold define
    rw [hload]
    exact ⟨symbols', rfl⟩

end Class

/-- How many of the listed methods have a `MethodSpec.key` that the version does not have. -/
def ClassVersion.added (v : ClassVersion) (specs : List MethodSpec) : Nat :=
  specs.countP fun spec => !v.methods.any (·.key == spec.key)

/-- `ClassVersion.added` are the methods that a redefinition of the version does not know. -/
private theorem ClassVersion.unknown_ordinals (v : ClassVersion) (specs : List MethodSpec) :
    Class.unknown v.ordinals specs = v.added specs := by
  refine List.countP_congr fun spec _ => ?_
  rw [Option.isNone_iff_eq_none, getElem?_ordinals_eq_none, Bool.not_eq_true',
    ← Bool.not_eq_true, Array.any_eq_true']
  simp only [Declares, beq_iff_eq]

/-- `ClassVersion.added` does not count a method that the version declares. -/
theorem ClassVersion.added_cons_of_declares {v : ClassVersion} {spec : MethodSpec}
    (h : v.Declares spec.key) (specs : List MethodSpec) :
    v.added (spec :: specs) = v.added specs := by
  obtain ⟨ordinal, hknown⟩ := Option.ne_none_iff_exists'.mp (getElem?_ordinals_ne_none.mpr h)
  rw [← unknown_ordinals, ← unknown_ordinals, Class.unknown_cons_of_known hknown]

/-- `ClassVersion.added` counts a method that the version does not declare. -/
theorem ClassVersion.added_cons_of_not_declares {v : ClassVersion} {spec : MethodSpec}
    (h : ¬v.Declares spec.key) (specs : List MethodSpec) :
    v.added (spec :: specs) = v.added specs + 1 := by
  rw [← unknown_ordinals, ← unknown_ordinals,
    Class.unknown_cons_of_unknown (getElem?_ordinals_eq_none.mpr h)]

namespace Class

section Redefining

variable (c : Class) (methods : List MethodSpec) (sourceFile : Option String)
  (symbols : SymbolTable)

/-- `Class.redefine` takes as many ordinals as it adds methods. -/
theorem redefine_of_room (hroom : c.nextOrdinal + c.current.added methods ≤ 65535) :
    ∃ (c' : Class) (symbols' : SymbolTable),
      c.redefine methods sourceFile symbols = (.ok c', symbols') ∧
        c'.nextOrdinal = c.nextOrdinal + c.current.added methods := by
  rw [← c.current.unknown_ordinals] at hroom ⊢
  obtain ⟨loaded, symbols', hload⟩ :=
    loadLater_of_room c.id (c.current.generation + 1) c.current.ordinals #[] symbols hroom
  unfold redefine
  dsimp only
  rw [hload]
  exact ⟨_, _, rfl, rfl⟩

/-- `Class.redefine` refuses to add more methods than there are ordinals left. -/
theorem redefine_of_no_room (hle : c.nextOrdinal ≤ 65535)
    (hfull : 65535 < c.nextOrdinal + c.current.added methods) :
    ∃ symbols', c.redefine methods sourceFile symbols = (.error .tooManyMethods, symbols') := by
  rw [← c.current.unknown_ordinals] at hfull
  obtain ⟨symbols', hload⟩ :=
    loadLater_of_no_room c.id (c.current.generation + 1) c.current.ordinals #[] symbols hle hfull
  unfold redefine
  dsimp only
  rw [hload]
  exact ⟨symbols', rfl⟩

/-- `Class.redefine` succeeds if there are ordinals for all methods that are listed. -/
theorem exists_redefine (hroom : c.nextOrdinal + methods.length ≤ 65535) :
    ∃ (c' : Class) (symbols' : SymbolTable),
      c.redefine methods sourceFile symbols = (.ok c', symbols') := by
  have hle : c.current.added methods ≤ methods.length := List.countP_le_length
  obtain ⟨c', symbols', hredefine, -⟩ := c.redefine_of_room methods sourceFile symbols (by omega)
  exact ⟨c', symbols', hredefine⟩

end Redefining

end Class

end StackTrace
