import StackTrace.Proofs.Settings.Counts
import StackTrace.Proofs.Settings.Layers
import StackTrace.Settings.Loader

/-!
# Loading settings, layer by layer

Loading looks for the nearest project file, reads it and the global file, and lays what the environment
sets over the project layer.  `FileTree.Nearest`, `Loader.userLayer` and `Environment.Overrides` say what
each layer is without the search and the reading order, and `Loads` what comes of the three: the first
error there is, or settings each of which is what the uppermost layer sets that sets it.

## Key results

- `FileTree.nearest_projectRoot?`, `FileTree.Nearest.projectRoot?_eq`: the search stops at the nearest
  project file, and nowhere else
- `Layer.load_eq_ok_iff`: what it takes for a file to be a layer
- `Loader.settings_of_layers`: what loading gives
- `Loader.usable_of_layers`: loaded settings are usable
-/

namespace StackTrace

/-! ## The nearest project file -/

namespace Path

/-- `trimEnd` makes no text longer. -/
private theorem length_trimEnd_le (cs : List Char) : (trimEnd cs).length ≤ cs.length := by
  fun_induction trimEnd cs with
  | case1 => exact Nat.le_refl _
  | case2 => exact Nat.le_refl _
  | case3 rest _ ih => exact ih.trans (Nat.le_succ _)
  | case4 rest ih => exact ih.trans (Nat.le_succ _)
  | case5 => exact Nat.le_refl _

/-- `trimEnd` leaves no slash at the end of a path, unless it is the whole path. -/
theorem eq_nil_of_trimEnd_eq {cs rest : List Char} (h : trimEnd cs = '/' :: rest) : rest = [] := by
  fun_induction trimEnd cs with
  | case1 => exact nomatch h
  | case2 => exact (List.cons.inj h).2.symm
  | case3 _ _ ih => exact ih h
  | case4 _ ih => exact ih h
  | case5 cs _ _ hslash _ => exact absurd h (hslash rest)

/-- `Path.parent?` is shorter, so the paths above a path are finitely many. -/
theorem length_parent?_lt {p q : Path} (h : p.parent? = some q) : q.text.length < p.text.length := by
  have hslash : ∀ rest, trimEnd p.text.toList.reverse = '/' :: rest → rest = [] :=
    fun _ => eq_nil_of_trimEnd_eq
  have hle := length_trimEnd_le p.text.toList.reverse
  unfold parent? at h
  -- The text from its end: nothing, the root, or a last part with a front
  generalize trimEnd p.text.toList.reverse = cs at h hslash hle
  split at h
  · exact nomatch h
  · exact nomatch h
  · rename_i hempty htop
    cases h
    obtain ⟨c, rest, rfl⟩ := List.exists_cons_of_ne_nil hempty
    -- The last part has a character, since a slash would be the whole path
    have hpart : (c != '/') = true := by
      rw [bne_iff_ne]
      rintro rfl
      exact htop (hslash rest rfl ▸ rfl)
    have hdrop := (List.dropWhile_suffix (l := rest) (· != '/')).length_le
    have htrim := length_trimEnd_le (rest.dropWhile (· != '/'))
    rw [List.length_reverse, String.length_toList, List.length_cons] at hle
    rw [show (c :: rest).dropWhile (· != '/') = rest.dropWhile (· != '/') from
      List.dropWhile_cons_of_pos hpart, String.length_ofList, List.length_reverse]
    omega

/-- `Path.selfAndParents` are the path and those from its parent upwards. -/
theorem selfAndParents_eq (p : Path) :
    p.selfAndParents = p :: p.parent?.elim [] selfAndParents := by
  rw [selfAndParents]
  cases hparent : p.parent? with
  | none => rfl
  | some q =>
    simp only [length_parent?_lt hparent, if_true, Option.elim_some]

end Path

/-- The nearest directory with a project file, from a path upwards: the path itself, or else what is
    nearest to its `Path.parent?`; none if it has no parent. -/
inductive FileTree.Nearest (t : FileTree) : Path → Option Path → Prop
  | here {p : Path} (hfile : t.pathExists (p.join projectFileName) = true) : Nearest t p (some p)
  | above {p q : Path} {root : Option Path} (hfile : t.pathExists (p.join projectFileName) = false)
      (hparent : p.parent? = some q) (hnearest : Nearest t q root) : Nearest t p root
  | nowhere {p : Path} (hfile : t.pathExists (p.join projectFileName) = false)
      (hparent : p.parent? = none) : Nearest t p none

namespace FileTree

variable {t : FileTree} {start : Path} {root : Option Path}

/-- `Loader.projectRoot?` is the path if it has a project file, and else the one from its parent
    upwards. -/
theorem projectRoot?_eq (t : FileTree) (p : Path) :
    Loader.projectRoot? t p =
      if t.pathExists (p.join projectFileName) = true then some p
      else p.parent?.bind (Loader.projectRoot? t) := by
  unfold Loader.projectRoot?
  rw [Path.selfAndParents_eq, List.find?_cons]
  cases t.pathExists (p.join projectFileName) with
  | true => rfl
  | false =>
    cases p.parent? with
    | none => rfl
    | some q => rfl

/-- `FileTree.Nearest` is what `Loader.projectRoot?` finds. -/
theorem Nearest.projectRoot?_eq (h : t.Nearest start root) : Loader.projectRoot? t start = root := by
  induction h with
  | here hfile => rw [FileTree.projectRoot?_eq, if_pos hfile]
  | above hfile hparent _ ih =>
    rw [FileTree.projectRoot?_eq, if_neg (Bool.eq_false_iff.mp hfile), hparent]
    exact ih
  | nowhere hfile hparent =>
    rw [FileTree.projectRoot?_eq, if_neg (Bool.eq_false_iff.mp hfile), hparent]
    rfl

/-- `Loader.projectRoot?` finds a path that is `FileTree.Nearest`. -/
theorem nearest_projectRoot? (t : FileTree) (start : Path) :
    t.Nearest start (Loader.projectRoot? t start) := by
  rw [projectRoot?_eq]
  -- By recursion on the length of the path, which every parent makes shorter
  by_cases hfile : t.pathExists (start.join projectFileName) = true
  · rw [if_pos hfile]
    exact .here hfile
  · rw [if_neg hfile]
    have hmissing := Bool.eq_false_iff.mpr hfile
    cases hparent : start.parent? with
    | none => exact .nowhere hmissing hparent
    | some q =>
      have hlt := Path.length_parent?_lt hparent
      exact .above hmissing hparent (nearest_projectRoot? t q)
termination_by start.text.length

end FileTree

/-! ## Files -/

/-- `FileTree.lookup` follows a path unless it is no text that a path can have. -/
theorem FileTree.lookup_of_fits {t : FileTree} {p : Path} (hzero : Char.ofNat 0 ∉ p.text.toList)
    (hne : p.text.isEmpty = false) (hfits : p.text.utf8ByteSize ≤ maxPathBytes) :
    t.lookup p = (t.follow [] p.parts).map Prod.snd := by
  unfold lookup
  rw [String.contains_char_eq, decide_eq_false hzero, if_neg Bool.false_ne_true,
    if_neg (Bool.eq_false_iff.mp hne), if_neg (by omega)]

/-- `Layer.load` makes a layer of a file if it can be read, what it holds can be understood, and that is
    in range. -/
theorem Layer.load_eq_ok_iff (t : FileTree) (file : Path) (layer : Layer) :
    Layer.load t file = .ok layer ↔
      ∃ text, t.read file = .ok text ∧ Layer.parse? text = some layer ∧ layer.Valid := by
  simp only [← validate_eq_ok_iff]
  -- The cases of `load`, in its order: reading, understanding, checking
  unfold Layer.load
  split
  · rename_i hread
    simp only [hread, reduceCtorEq, false_and, exists_false]
  · rename_i hread
    simp only [hread, reduceCtorEq, false_and, exists_false]
  · rename_i text hread
    simp only [hread, Except.ok.injEq, exists_eq_left']
    split
    · rename_i hparse
      simp only [hparse, reduceCtorEq, false_and]
    · rename_i parsed hparse
      simp only [hparse, Option.some.injEq]
      split
      · rename_i hvalidate
        constructor
        · exact nofun
        · rintro ⟨rfl, hvalid⟩
          rw [hvalidate] at hvalid
          exact nomatch hvalid
      · rename_i hvalidate
        constructor
        · rintro ⟨rfl⟩
          exact ⟨rfl, hvalidate⟩
        · rintro ⟨rfl, -⟩
          rfl

/-- The place of the global file: where the loader was told that it is, or else in the home directory. -/
def Loader.userFile (l : Loader) (home : Option Path) : Option Path :=
  l.globalFile.or (home.map fun home => (home.join ".kestrel").join "config.toml")

/-- The layer in `Loader.userFile`, or one that sets nothing if there is none. -/
def Loader.userLayer (l : Loader) (t : FileTree) (home : Option Path) : Layer :=
  ((l.userFile home).bind fun file => (Layer.load t file).toOption).getD Layer.empty

/-- `Layer.load` cannot read a file that does not exist. -/
private theorem Layer.toOption_load_of_missing {t : FileTree} {file : Path} (h : t.pathExists file = false) :
    (Layer.load t file).toOption = none := by
  unfold FileTree.pathExists at h
  cases hload : Layer.load t file with
  | error e => rfl
  | ok layer =>
    obtain ⟨text, hread, -, -⟩ := (load_eq_ok_iff t file layer).mp hload
    unfold FileTree.read at hread
    cases hlookup : t.lookup file with
    | error e =>
      rw [hlookup] at hread
      exact nomatch hread
    | ok entry =>
      rw [hlookup] at h
      exact nomatch h

/-- `Layer.load` need not tell a missing file apart from one that cannot be used. -/
private theorem Loader.load_if_exists (l : Loader) (t : FileTree) (file : Path) :
    (if t.pathExists file = true then ((Layer.load t file).toOption.getD Layer.empty, l)
      else (Layer.empty, l)) = ((Layer.load t file).toOption.getD Layer.empty, l) := by
  by_cases hfile : t.pathExists file = true
  · rw [if_pos hfile]
  · rw [if_neg hfile, Layer.toOption_load_of_missing (Bool.eq_false_iff.mpr hfile), Option.getD_none]

/-- `Loader.loadGlobal` gives the layer of the user. -/
private theorem Loader.fst_loadGlobal (l : Loader) (t : FileTree) (home : Option Path) :
    (l.loadGlobal t home).1 = l.userLayer t home := by
  obtain ⟨globalFile⟩ := l
  cases globalFile with
  | some file => exact congrArg Prod.fst (load_if_exists _ t file)
  | none =>
    cases home with
    | none => rfl
    | some home => exact congrArg Prod.fst (load_if_exists _ t _)

/-- `Loader.userLayer` is valid: what cannot be used is left out. -/
theorem Loader.userLayer_valid (l : Loader) (t : FileTree) (home : Option Path) :
    (l.userLayer t home).Valid := by
  unfold userLayer
  cases l.userFile home with
  | none => exact Layer.valid_empty
  | some file =>
    show ((Layer.load t file).toOption.getD Layer.empty).Valid
    cases hload : Layer.load t file with
    | error e => exact Layer.valid_empty
    | ok layer =>
      obtain ⟨_, -, -, hvalid⟩ := (Layer.load_eq_ok_iff t file layer).mp hload
      exact hvalid

/-! ## The environment -/

/-- The section `s` is what the environment sets.  A flag is set to whether it is one of the words for
    yes. -/
structure Environment.Overrides (e : Environment) (s : BacktraceSection) : Prop where
  enabled : s.enabled = (e.text? "KESTREL_STACK_TRACES").map parseFlag
  maxDepth : e.Sets "KESTREL_MAX_STACK_TRACE_DEPTH" s.maxDepth
  chunkSize : e.Sets "KESTREL_TRACE_CHUNK_SIZE" s.chunkSize
  inRange : ∀ n, s.chunkSize = some n → IsChunkSize n
  showHiddenFrames : s.showHiddenFrames = (e.text? "KESTREL_SHOW_HIDDEN_FRAMES").map parseFlag
  preallocatedErrors : s.preallocatedErrors = none

namespace Environment

variable {e : Environment} {s : BacktraceSection} {v : InvalidValue}

/-- `Environment.Overrides` makes the environment set one section at most. -/
theorem Overrides.unique {s' : BacktraceSection} (h : e.Overrides s) (h' : e.Overrides s') : s = s' := by
  have hmaxDepth := h.maxDepth.unique h'.maxDepth
  have hchunkSize := h.chunkSize.unique h'.chunkSize
  have henabled := h.enabled.trans h'.enabled.symm
  have hhidden := h.showHiddenFrames.trans h'.showHiddenFrames.symm
  have hprepared := h.preallocatedErrors.trans h'.preallocatedErrors.symm
  cases s
  cases s'
  simp only at hmaxDepth hchunkSize henabled hhidden hprepared
  rw [hmaxDepth, hchunkSize, henabled, hhidden, hprepared]

/-- `Environment.override` reads the depth first. -/
private theorem override_of_depth (h : e.count? "KESTREL_MAX_STACK_TRACE_DEPTH" = .error v)
    (project : Layer) :
    e.override project = .error v := by
  simp only [override, backtrace?, h]
  rfl

/-- `Environment.override` reads the chunk size next. -/
private theorem override_of_size {depth : Option Nat}
    (hdepth : e.count? "KESTREL_MAX_STACK_TRACE_DEPTH" = .ok depth)
    (h : e.count? "KESTREL_TRACE_CHUNK_SIZE" = .error v) (project : Layer) :
    e.override project = .error v := by
  simp only [override, backtrace?, hdepth, h]
  rfl

/-- `Environment.override` refuses a chunk size out of range once both have been read. -/
private theorem override_of_range {depth : Option Nat} {n : Nat}
    (hdepth : e.count? "KESTREL_MAX_STACK_TRACE_DEPTH" = .ok depth)
    (hsize : e.count? "KESTREL_TRACE_CHUNK_SIZE" = .ok (some n)) (h : ¬IsChunkSize n)
    (project : Layer) : e.override project = .error (.chunkSize n) := by
  have hcheck : (some n).forM checkChunkSize = .error (.chunkSize n) := checkChunkSize_of_not h
  -- The check stands between reading the variables and putting the section together
  simp only [override, backtrace?, hdepth, hsize]
  show (do let s ← (do (some n).forM checkChunkSize; _); _) = _
  rw [hcheck]
  rfl

/-- `Environment.backtrace?` is the section that the environment sets, if it sets anything. -/
private theorem backtrace?_of_overrides (hs : e.Overrides s) :
    e.backtrace? = .ok (if s = {} then none else some s) := by
  have hdepth := (count?_eq_ok_iff _).mpr hs.maxDepth
  have hsize := (count?_eq_ok_iff _).mpr hs.chunkSize
  have hcheck : s.chunkSize.forM checkChunkSize = .ok () := by
    cases hset : s.chunkSize with
    | none => rfl
    | some n => exact (checkChunkSize_eq_ok_iff n).mpr (hs.inRange n hset)
  -- Every field of the section is what the environment sets
  have hsection : s = { enabled := (e.text? "KESTREL_STACK_TRACES").map parseFlag
                        maxDepth := s.maxDepth
                        chunkSize := s.chunkSize
                        showHiddenFrames := (e.text? "KESTREL_SHOW_HIDDEN_FRAMES").map parseFlag } := by
    rw [← hs.enabled, ← hs.showHiddenFrames, ← hs.preallocatedErrors]
  unfold backtrace?
  rw [hdepth, hsize]
  show (do s.chunkSize.forM checkChunkSize; _) = _
  rw [hcheck]
  conv => rhs; rw [hsection]
  rfl

/-- `Environment.override` lays what the environment sets over the project layer, whose section on the
    heap stays. -/
private theorem override_of_overrides (hs : e.Overrides s) (project : Layer) :
    ∃ layer, e.override project = .ok layer ∧
      layer.backtraceSection = project.backtraceSection.merge s ∧
      layer.heapSection = project.heapSection := by
  unfold override
  rw [backtrace?_of_overrides hs]
  -- An empty section is not merged at all, so that the layer gets none if it had none
  by_cases hempty : s = {}
  · subst hempty
    exact ⟨project, rfl, rfl, rfl⟩
  · rw [if_neg hempty]
    exact ⟨project.modifyBacktrace (·.merge s), rfl, rfl, rfl⟩

end Environment

/-! ## Loading -/

/-- What comes of loading, if `project` is what the project file comes to and `user` is the layer of the
    user.  An error in the project file comes before one in the environment, and there the depth comes
    before the chunk size. -/
inductive Loads (project : Except ConfigError Layer) (env : Environment) (user : Layer) :
    Except ConfigError Config → Prop
  | file {e : ConfigError} (hproject : project = .error e) : Loads project env user (.error e)
  | depth {layer : Layer} {text : String} {why : CountError} (hproject : project = .ok layer)
      (htext : env.text? "KESTREL_MAX_STACK_TRACE_DEPTH" = some text) (hcount : ∀ n, ¬IsCount text n)
      (hwhy : parseCount text = .error why) :
      Loads project env user
        (.error (.invalidValue (.notACount "KESTREL_MAX_STACK_TRACE_DEPTH" text why)))
  | size {layer : Layer} {maxDepth : Option Nat} {text : String} {why : CountError}
      (hproject : project = .ok layer) (hdepth : env.Sets "KESTREL_MAX_STACK_TRACE_DEPTH" maxDepth)
      (htext : env.text? "KESTREL_TRACE_CHUNK_SIZE" = some text) (hcount : ∀ n, ¬IsCount text n)
      (hwhy : parseCount text = .error why) :
      Loads project env user
        (.error (.invalidValue (.notACount "KESTREL_TRACE_CHUNK_SIZE" text why)))
  | range {layer : Layer} {maxDepth : Option Nat} {n : Nat} (hproject : project = .ok layer)
      (hdepth : env.Sets "KESTREL_MAX_STACK_TRACE_DEPTH" maxDepth)
      (hsize : env.Sets "KESTREL_TRACE_CHUNK_SIZE" (some n)) (hrange : ¬IsChunkSize n) :
      Loads project env user (.error (.invalidValue (.chunkSize n)))
  | settings {layer : Layer} {s : BacktraceSection} {config : Config} (hproject : project = .ok layer)
      (hs : env.Overrides s)
      (hforce : InForce [s, layer.backtraceSection, user.backtraceSection]
        [layer.heapSection, user.heapSection] config.runtime) :
      Loads project env user (.ok config)

/-- Something is wrong with the project file or the environment: the file is no layer, or one of the two
    variables that stand for numbers is not set to one, or the number is not a chunk size. -/
def Rejected (project : Except ConfigError Layer) (env : Environment) : Prop :=
  (∃ e, project = .error e) ∨
  (∃ text, env.text? "KESTREL_MAX_STACK_TRACE_DEPTH" = some text ∧ ∀ n, ¬IsCount text n) ∨
  ∃ text, env.text? "KESTREL_TRACE_CHUNK_SIZE" = some text ∧ ∀ n, IsCount text n → ¬IsChunkSize n

namespace Loads

variable {project : Except ConfigError Layer} {env : Environment} {user : Layer}
  {result : Except ConfigError Config}

/-- What the environment sets is not `Rejected`. -/
private theorem not_rejected {layer : Layer} {s : BacktraceSection} (hs : env.Overrides s) :
    ¬Rejected (.ok layer) env := by
  rintro (⟨e, herror⟩ | ⟨text, htext, hcount⟩ | ⟨text, htext, hcount⟩)
  · exact nomatch herror
  · obtain ⟨n, -, hn⟩ := hs.maxDepth.isCount htext
    exact hcount n hn
  · obtain ⟨n, hset, hn⟩ := hs.chunkSize.isCount htext
    exact hcount n hn (hs.inRange n hset)

/-- What `Loads` gives is an error exactly if the project file or the environment is rejected. -/
private theorem error_iff (h : Loads project env user result) :
    (∃ e, result = .error e) ↔ Rejected project env := by
  cases h with
  | file hproject => exact ⟨fun _ => .inl ⟨_, hproject⟩, fun _ => ⟨_, rfl⟩⟩
  | depth _ htext hcount => exact ⟨fun _ => .inr (.inl ⟨_, htext, hcount⟩), fun _ => ⟨_, rfl⟩⟩
  | size _ _ htext hcount =>
    exact ⟨fun _ => .inr (.inr ⟨_, htext, fun n hn => absurd hn (hcount n)⟩), fun _ => ⟨_, rfl⟩⟩
  | range _ _ hsize hrange =>
    obtain ⟨text, htext, hcount⟩ := hsize
    exact ⟨fun _ => .inr (.inr ⟨text, htext, fun m hm => hcount.unique hm ▸ hrange⟩),
      fun _ => ⟨_, rfl⟩⟩
  | settings hproject hs => exact ⟨nofun, fun hrejected => absurd (hproject ▸ hrejected) (not_rejected hs)⟩

/-- What `Loads` gives are settings if nothing is wrong with the project file and the environment, and
    they are `InForce`. -/
private theorem inForce {layer : Layer} {s : BacktraceSection} (h : Loads (.ok layer) env user result)
    (hs : env.Overrides s) : ∃ config, result = .ok config ∧
      InForce [s, layer.backtraceSection, user.backtraceSection] [layer.heapSection, user.heapSection]
        config.runtime := by
  have hnot : ¬∃ e, result = .error e := mt h.error_iff.mp (not_rejected hs)
  cases h with
  | settings hlayer hs' hforce =>
    cases hlayer
    rw [hs'.unique hs] at hforce
    exact ⟨_, rfl, hforce⟩
  | _ => exact absurd ⟨_, rfl⟩ hnot

/-- What `Loads` gives from valid layers is usable. -/
theorem usable {config : Config} (h : Loads project env user (.ok config))
    (hproject : ∀ layer, project = .ok layer → layer.Valid) (huser : user.Valid) :
    Usable config.runtime := by
  cases h with
  | settings hlayer hs hforce =>
    have hvalid := hproject _ hlayer
    apply hforce.usable
    · simp only [List.forall_mem_cons]
      exact ⟨hs.inRange, hvalid.chunkSize, huser.chunkSize, nofun⟩
    · simp only [List.forall_mem_cons]
      exact ⟨hvalid.limitBytes, huser.limitBytes, nofun⟩

end Loads

namespace Loader

variable {l : Loader} {t : FileTree} {home : Option Path} {env : Environment}

/-- `Loader.complete` with an environment that can be laid over the project layer. -/
theorem complete_of_ok {project layer : Layer} (h : env.override project = .ok layer)
    (root : Option Path) :
    (l.complete t home env root project).1 =
      .ok ⟨layer, l.userLayer t home, root.map (·.text)⟩ := by
  rw [← fst_loadGlobal]
  simp only [complete, h]

/-- `Loader.complete` with an environment that cannot be used. -/
theorem complete_of_error {project : Layer} {v : InvalidValue} (h : env.override project = .error v)
    (root : Option Path) :
    (l.complete t home env root project).1 = .error (.invalidValue v) := by
  simp only [complete, h]

/-- `Loader.complete` loads as it should, whatever the project layer is. -/
private theorem loads_complete (l : Loader) (t : FileTree) (home : Option Path) (env : Environment)
    (root : Option Path) (project : Layer) :
    Loads (.ok project) env (l.userLayer t home) (l.complete t home env root project).1 := by
  -- The cases are those in which reading the environment may stop, in its order
  cases hdepth : env.count? "KESTREL_MAX_STACK_TRACE_DEPTH" with
  | error v =>
    obtain ⟨text, why, htext, hcount, hwhy, rfl⟩ := Environment.count?_error hdepth
    rw [complete_of_error (Environment.override_of_depth hdepth project)]
    exact .depth rfl htext hcount hwhy
  | ok maxDepth =>
    have hmaxDepth := (Environment.count?_eq_ok_iff _).mp hdepth
    cases hsize : env.count? "KESTREL_TRACE_CHUNK_SIZE" with
    | error v =>
      obtain ⟨text, why, htext, hcount, hwhy, rfl⟩ := Environment.count?_error hsize
      rw [complete_of_error (Environment.override_of_size hdepth hsize project)]
      exact .size rfl hmaxDepth htext hcount hwhy
    | ok chunkSize =>
      have hchunkSize := (Environment.count?_eq_ok_iff _).mp hsize
      by_cases hrange : ∀ n, chunkSize = some n → IsChunkSize n
      · have hs : env.Overrides
            { enabled := (env.text? "KESTREL_STACK_TRACES").map parseFlag
              maxDepth, chunkSize
              showHiddenFrames := (env.text? "KESTREL_SHOW_HIDDEN_FRAMES").map parseFlag } :=
          ⟨rfl, hmaxDepth, hchunkSize, hrange, rfl, rfl⟩
        obtain ⟨layer, hlayer, hbacktrace, hheap⟩ := Environment.override_of_overrides hs project
        rw [complete_of_ok hlayer]
        have hforce := Config.inForce_runtime ⟨layer, l.userLayer t home, root.map (·.text)⟩
        simp only [hbacktrace, hheap] at hforce
        exact .settings rfl hs hforce.of_merge
      · simp only [not_forall] at hrange
        obtain ⟨n, rfl, hn⟩ := hrange
        rw [complete_of_error (Environment.override_of_range hdepth hsize hn project)]
        exact .range rfl hmaxDepth hchunkSize hn

/-- What `Layer.load` makes of the project file, if `root` is the directory that has it. -/
def projectLayer (t : FileTree) (root : Option Path) : Except ConfigError Layer :=
  root.elim (.ok Layer.empty) fun root => Layer.load t (root.join projectFileName)

/-- `Loader.loadFile` loads as it should. -/
theorem loads_loadFile (l : Loader) (t : FileTree) (home : Option Path) (env : Environment)
    (file : Path) :
    Loads (Layer.load t file) env (l.userLayer t home) (l.loadFile t home env file).1 := by
  unfold loadFile
  cases Layer.load t file with
  | error e => exact .file rfl
  | ok project => exact loads_complete l t home env file.parent? project

/-- `Loader.loadDirectory` completes the project layer of the nearest project file. -/
private theorem loadDirectory_of_nearest {start : Path} {root : Option Path} {project : Layer}
    (h : t.Nearest start root) (hproject : projectLayer t root = .ok project) :
    l.loadDirectory t home env start = l.complete t home env root project := by
  unfold loadDirectory findProject
  rw [h.projectRoot?_eq]
  cases root with
  | none =>
    cases hproject
    rfl
  | some root =>
    have hload : Layer.load t (root.join projectFileName) = .ok project := hproject
    simp only [hload]

/-- `Loader.loadDirectory` loads as it should. -/
theorem loads_loadDirectory (l : Loader) (home : Option Path) (env : Environment) {start : Path}
    {root : Option Path} (h : t.Nearest start root) :
    Loads (projectLayer t root) env (l.userLayer t home) (l.loadDirectory t home env start).1 := by
  cases hproject : projectLayer t root with
  | ok project =>
    rw [loadDirectory_of_nearest h hproject]
    exact loads_complete l t home env root project
  | error e =>
    cases root with
    | none => exact nomatch hproject
    | some root =>
      have hload : Layer.load t (root.join projectFileName) = .error e := hproject
      unfold loadDirectory findProject
      simp only [h.projectRoot?_eq, hload]
      exact .file rfl

/-- A project within another one, whose file is out of range, and a user who bounds the heap. -/
def nested : FileTree :=
  ⟨[(["src", "app"], .directory), (["app"], .directory), (["etc"], .directory),
    (["kestrel.toml", "app"], .file "[backtrace]\nchunk_size = 8\nmax_depth = 5".toUTF8),
    (["kestrel.toml"], .file "[backtrace]\nchunk_size = 0".toUTF8),
    (["user.toml", "etc"], .file "[backtrace]\nmax_depth = 7\n[heap]\nlimit_bytes = 64".toUTF8)]⟩

/-- An environment in which only the depth is set. -/
def deep : Environment := ⟨[("KESTREL_MAX_STACK_TRACE_DEPTH", " +16 ".toUTF8)]⟩

/-- The inner project is `FileTree.Nearest` in `nested`. -/
private theorem nearest_nested : nested.Nearest ⟨"/app/src"⟩ (some ⟨"/app"⟩) := by
  apply FileTree.Nearest.above (q := ⟨"/app"⟩)
  · unfold FileTree.pathExists
    rw [FileTree.lookup_of_fits (by decide +kernel) (by decide +kernel) (by decide +kernel)]
    decide +kernel
  · decide +kernel
  · apply FileTree.Nearest.here
    unfold FileTree.pathExists
    rw [FileTree.lookup_of_fits (by decide +kernel) (by decide +kernel) (by decide +kernel)]
    decide +kernel

/-- `projectLayer` of the inner project in `nested`. -/
private theorem projectLayer_nested : projectLayer nested (some ⟨"/app"⟩) =
    .ok { backtrace := some { maxDepth := some 5, chunkSize := some 8 } } := by
  apply (Layer.load_eq_ok_iff _ _ _).mpr
  refine ⟨"[backtrace]\nchunk_size = 8\nmax_depth = 5", ?_, by decide +kernel, ?_⟩
  · unfold FileTree.read
    rw [FileTree.lookup_of_fits (by decide +kernel) (by decide +kernel) (by decide +kernel)]
    decide +kernel
  · apply (Layer.validate_eq_ok_iff _).mp
    decide +kernel

/-- All that `deep` overrides by `Environment.Overrides` is the depth. -/
private theorem overrides_deep : deep.Overrides { maxDepth := some 16 } where
  enabled := by decide +kernel
  maxDepth := ⟨" +16 ", by decide +kernel, (parseCount_eq_ok_iff _ _).mp (by decide +kernel)⟩
  chunkSize := by
    show deep.text? _ = none
    decide +kernel
  inRange := nofun
  showHiddenFrames := by decide +kernel
  preallocatedErrors := rfl

/-- `projectLayer` is valid, as it was checked when it was loaded. -/
theorem projectLayer_valid {root : Option Path} {layer : Layer} (h : projectLayer t root = .ok layer) :
    layer.Valid := by
  cases root with
  | none =>
    cases h
    exact Layer.valid_empty
  | some root =>
    obtain ⟨_, -, -, hvalid⟩ := (Layer.load_eq_ok_iff t _ layer).mp h
    exact hvalid

/-- `Usable` holds of settings that were loaded, and of those that come from layers which passed their
    check, however often layers of the user were merged. -/
theorem usable_of_layers (l : Loader) (t : FileTree) (home : Option Path) (env : Environment)
    (config : Config)
    (h : (∃ start, (l.loadDirectory t home env start).1 = .ok config) ∨
      (∃ file, (l.loadFile t home env file).1 = .ok config) ∨
      (config.global.Merged ∧ config.project.validate = .ok ())) : Usable config.runtime := by
  rcases h with ⟨start, hload⟩ | ⟨file, hload⟩ | ⟨hglobal, hproject⟩
  · have hloads := loads_loadDirectory l home env (t.nearest_projectRoot? start)
    rw [hload] at hloads
    exact hloads.usable (fun _ => projectLayer_valid) (l.userLayer_valid t home)
  · have hloads := loads_loadFile l t home env file
    rw [hload] at hloads
    refine hloads.usable (fun layer hlayer => ?_) (l.userLayer_valid t home)
    obtain ⟨_, -, -, hvalid⟩ := (Layer.load_eq_ok_iff t file layer).mp hlayer
    exact hvalid
  · exact Config.usable_runtime ((Layer.validate_eq_ok_iff _).mp hproject) hglobal.valid

/-- `usable_of_layers` for the settings of `nested`, and for those that come from two layers of a user,
    the upper one with the largest chunks. -/
theorem usable_of_layers_nested :
    (∃ config, (loadDirectory ⟨none⟩ nested none deep ⟨"/app/src"⟩).1 = .ok config ∧
      Usable config.runtime) ∧
    Usable (Config.runtime ⟨{ backtrace := some { maxDepth := some 0 } },
      Layer.merge { backtrace := some { chunkSize := some 1 } }
        { backtrace := some { chunkSize := some 65535 }, heap := some { limitBytes := some 1 } },
      none⟩) := by
  constructor
  · have hload := loads_loadDirectory ⟨none⟩ none deep nearest_nested
    rw [projectLayer_nested] at hload
    obtain ⟨config, hconfig, -⟩ := hload.inForce overrides_deep
    exact ⟨config, hconfig, usable_of_layers ⟨none⟩ nested none deep config (.inl ⟨_, hconfig⟩)⟩
  · have hlower : Layer.Merged { backtrace := some { chunkSize := some 1 } } := .checked (by decide)
    have hupper : Layer.Merged
        { backtrace := some { chunkSize := some 65535 }, heap := some { limitBytes := some 1 } } :=
      .checked (by decide)
    exact usable_of_layers new FileTree.empty none ⟨[]⟩ _ (.inr (.inr ⟨.merge hlower hupper, by decide⟩))

end Loader

end StackTrace
