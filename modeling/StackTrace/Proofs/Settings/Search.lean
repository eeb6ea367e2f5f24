import Mathlib.Data.List.Infix
import StackTrace.Proofs.Settings.Places

/-!
# The search for a project

A search for a project file goes from a path to its parents, as texts.  The paths that it visits have the
front parts of the names of the first one, longest first, so the directories are those that the path passes;
where the path has two dots, they need not be above the directory that it leads to.

## Key results

- `Searchable.pathExists_eq`: a visited path has a project file exactly if the place that it leads to has one
- `FileTree.Nearest.stopsAt`: the search stops at the longest front part that leads to a project file
- `Loader.search_of_directory`: what the search finds, from any directory
-/

namespace StackTrace

namespace Path

/-- `Path.selfAndParents` is what a search visits, so it ends. -/
private theorem length_selfAndParents {p : Path} (h : p.IsAbsolute) :
    p.selfAndParents.length = p.names.length + 1 := by
  rw [selfAndParents_eq]
  rcases parent?_cases h with ⟨hnone, hnames⟩ | ⟨q, last, hparent, hq, hshorter, hnames⟩
  · rw [hnone, hnames]
    rfl
  · have hlt := length_parent?_lt hparent
    rw [hparent, hnames, Option.elim_some, List.length_cons, length_selfAndParents hq,
      List.length_append, List.length_singleton]
termination_by p.text.length

end Path

/-- A directory that project files are looked for in: an absolute path with room for
    `projectFileName`. -/
structure Searchable (t : FileTree) (p : Path) : Prop where
  absolute : p.IsAbsolute
  directory : t.lookup p = .ok .directory
  room : p.text.utf8ByteSize + 13 ≤ FileTree.maxPathBytes

namespace FileTree

variable {t : FileTree} {p : Path} {entry : FileEntry}

/-- There is a `projectFileName` at a place. -/
def holdsProject (t : FileTree) (place : List String) : Bool :=
  (t.at? (projectFileName :: place)).isSome

/-- `FileTree.lookup` follows a path, if it can be a path at all. -/
private theorem lookup_eq_ok_iff :
    t.lookup p = .ok entry ↔
      Char.ofNat 0 ∉ p.text.toList ∧ p.text.isEmpty = false ∧ p.text.utf8ByteSize ≤ maxPathBytes ∧
        ∃ place, t.follow [] p.parts = .ok (place, entry) := by
  constructor
  · intro h
    -- The three checks of `lookup` in turn, and then the way itself
    unfold lookup at h
    split at h
    · exact nomatch h
    · rename_i hzero
      split at h
      · exact nomatch h
      · rename_i hne
        split at h
        · exact nomatch h
        · rename_i hfits
          rw [String.contains_char_eq, decide_eq_true_eq] at hzero
          refine ⟨hzero, Bool.eq_false_iff.mpr hne, Nat.le_of_not_lt hfits, ?_⟩
          cases hfollow : t.follow [] p.parts with
          | error e =>
            rw [hfollow] at h
            exact nomatch h
          | ok r =>
            rw [hfollow] at h
            cases h
            exact ⟨r.1, rfl⟩
  · rintro ⟨hzero, hne, hfits, place, hfollow⟩
    rw [lookup_of_fits hzero hne hfits, hfollow]
    rfl

end FileTree

/-! ## One step of the search -/

/-- `String.utf8ByteSize` of a front part is no greater. -/
private theorem utf8ByteSize_le_of_prefix {s s' : String} (h : s.toList <+: s'.toList) :
    s.utf8ByteSize ≤ s'.utf8ByteSize := by
  obtain ⟨rest, hrest⟩ := h
  have hs' : s' = s ++ String.ofList rest := by
    rw [← String.toList_inj, String.toList_append, String.toList_ofList, hrest]
  rw [hs', String.utf8ByteSize_append]
  exact Nat.le_add_right _ _

namespace Searchable

variable {t : FileTree} {p q : Path}

/-- `FileTree.follow` leads from the names of a directory that is searched to its place. -/
private theorem follow_names (h : Searchable t p) : t.follow [] p.names = .ok (p.place, .directory) := by
  obtain ⟨-, -, -, place, hfollow⟩ := FileTree.lookup_eq_ok_iff.mp h.directory
  have hnames : t.follow [] (p.names ++ []) = .ok (place, .directory) := by
    rw [List.append_nil]
    exact FileTree.follow_names_iff.mp hfollow
  exact FileTree.exists_follow_front hnames

/-- `FileTree.follow` leads from the parts of a directory that is searched to its place. -/
private theorem follow_parts (h : Searchable t p) : t.follow [] p.parts = .ok (p.place, .directory) :=
  FileTree.follow_names_iff.mpr h.follow_names

/-- `Path.parent?` of a directory that is searched can be searched as well. -/
private theorem parent (h : Searchable t p) (hparent : p.parent? = some q) :
    Searchable t q ∧ ∃ last, p.names = q.names ++ [last] := by
  rcases Path.parent?_cases h.absolute with ⟨hnone, -⟩ | ⟨q', last, hsome, hq, hshorter, hnames⟩
  · rw [hnone] at hparent
    cases hparent
  · obtain rfl : q' = q := Option.some.inj (hsome.symm.trans hparent)
    obtain ⟨hzero, -, hfits, -⟩ := FileTree.lookup_eq_ok_iff.mp h.directory
    have hle := utf8ByteSize_le_of_prefix hshorter
    have hfollow := h.follow_names
    rw [hnames] at hfollow
    -- Its text is a front part, and its names lead to a directory, as all on the way are directories
    refine ⟨⟨hq, FileTree.lookup_eq_ok_iff.mpr ⟨?_, ?_, hle.trans hfits, q'.place, ?_⟩, ?_⟩, last, hnames⟩
    · exact fun hmem => hzero (hshorter.mem hmem)
    · rw [Bool.eq_false_iff]
      intro hempty
      rw [Path.IsAbsolute, String.isEmpty_iff.mp hempty] at hq
      cases hq
    · exact FileTree.follow_names_iff.mpr (FileTree.exists_follow_front hfollow)
    · exact (Nat.add_le_add_right hle 13).trans h.room

/-- `Path.join` puts the names of a path in front of the one that is joined to it. -/
private theorem exists_parts_join (p : Path) {name : String} (hslash : '/' ∉ name.toList)
    (hne : p.text.isEmpty = false) :
    ∃ parts, (p.join name).parts = parts ++ [name] ∧ parts.filter Path.isName = p.names := by
  -- With a slash at the end of the path nothing is put between the two, and else one is
  have hname : name.toList.splitOn '/' = [name.toList] := List.splitOn_eq_singleton hslash
  unfold Path.join
  rw [hne, Bool.false_or]
  split
  · rename_i hend
    rw [String.endsWith_eq_endsWith_toSlice, String.Slice.endsWith_string_iff,
      String.copy_toSlice] at hend
    obtain ⟨front, hfront⟩ := hend
    have htext : p.text.toList = front ++ '/' :: [] := hfront.symm
    refine ⟨(front.splitOn '/').map String.ofList, ?_, ?_⟩
    · rw [Path.parts, String.toList_append, htext, List.append_assoc, List.cons_append,
        List.nil_append, List.splitOn_append_cons_self, hname, List.map_append, List.map_singleton,
        String.ofList_toList]
    · rw [Path.names_eq, htext, Path.namesOf_append_slash, Path.namesOf_nil, List.append_nil]
      rfl
  · refine ⟨p.parts, ?_, rfl⟩
    have hsingle : "/".toList = ['/'] := rfl
    rw [Path.parts, String.toList_append, String.toList_append, hsingle, List.append_assoc,
      List.cons_append, List.nil_append, List.splitOn_append_cons_self, hname, List.map_append,
      List.map_singleton, String.ofList_toList]
    rfl

/-- `Path.join` with the name of a project file is a path that can be followed. -/
private theorem fits_join (h : Searchable t p) :
    Char.ofNat 0 ∉ (p.join projectFileName).text.toList ∧
      (p.join projectFileName).text.isEmpty = false ∧
      (p.join projectFileName).text.utf8ByteSize ≤ FileTree.maxPathBytes := by
  obtain ⟨hzero, -, -, -⟩ := FileTree.lookup_eq_ok_iff.mp h.directory
  have hroom := h.room
  have hsize : projectFileName.utf8ByteSize = 12 := by decide +kernel
  -- There is at most a slash between the two
  obtain ⟨slash, hslash, hlist, htext⟩ : ∃ slash : String, slash.utf8ByteSize ≤ 1 ∧
      Char.ofNat 0 ∉ (slash ++ projectFileName).toList ∧
      (p.join projectFileName).text = p.text ++ (slash ++ projectFileName) := by
    unfold Path.join
    split
    · exact ⟨"", by decide, by decide +kernel, by rw [String.empty_append]⟩
    · exact ⟨"/", by decide, by decide +kernel, String.append_assoc⟩
  rw [htext]
  refine ⟨?_, ?_, ?_⟩
  · rw [String.toList_append, List.mem_append, not_or]
    exact ⟨hzero, hlist⟩
  · rw [Bool.eq_false_iff, ne_eq, String.isEmpty_iff_utf8ByteSize_eq_zero, String.utf8ByteSize_append,
      String.utf8ByteSize_append]
    omega
  · rw [String.utf8ByteSize_append, String.utf8ByteSize_append]
    omega

/-- `FileTree.pathExists` of the project file of a directory tells exactly if there is one at its
    place. -/
theorem pathExists_eq (h : Searchable t p) :
    t.pathExists (p.join projectFileName) = t.holdsProject p.place := by
  obtain ⟨-, hne, -, -⟩ := FileTree.lookup_eq_ok_iff.mp h.directory
  obtain ⟨hzero', hne', hfits'⟩ := h.fits_join
  obtain ⟨parts, hparts, hnames⟩ := exists_parts_join p (by decide : '/' ∉ projectFileName.toList) hne
  -- The path of the file leads to the directory, and from there one name down
  have hfollow : t.follow [] parts = .ok (p.place, .directory) := by
    rw [FileTree.follow_names_iff, hnames]
    exact h.follow_names
  have hstep : FileTree.step p.place projectFileName = projectFileName :: p.place := by
    rw [FileTree.step, if_neg (by decide), if_neg (by decide)]
  have hname : ¬FileTree.maxNameBytes < projectFileName.utf8ByteSize := by decide +kernel
  unfold FileTree.pathExists
  rw [FileTree.lookup_of_fits hzero' hne' hfits', hparts, FileTree.follow_append hfollow,
    FileTree.follow_cons, FileTree.at?_of_follow hfollow]
  dsimp only
  rw [if_neg hname, hstep, FileTree.follow, FileTree.holdsProject]
  cases t.at? (projectFileName :: p.place) with
  | none => rfl
  | some entry => rfl

end Searchable

/-! ## The whole search -/

/-- The search from `p` stops at the longest front part of its names that leads to a project file. -/
structure StopsAt (t : FileTree) (p root : Path) : Prop where
  searchable : Searchable t root
  holds : t.holdsProject root.place = true
  front : root.names <+: p.names
  longest : ∀ longer, root.names <+: longer → longer <+: p.names → longer ≠ root.names →
    t.holdsProject (longer.foldl FileTree.step []) = false

namespace FileTree.Nearest

variable {t : FileTree} {p : Path} {root : Option Path}

/-- `FileTree.Nearest` stops at the nearest front part of the names that has a project file. -/
theorem stopsAt (h : t.Nearest p root) (hp : Searchable t p) {found : Path} (hroot : root = some found) :
    StopsAt t p found := by
  -- Induction on the search, which takes one name off at each step
  induction h with
  | here hfile =>
    cases hroot
    rw [hp.pathExists_eq] at hfile
    refine ⟨hp, hfile, List.prefix_rfl, fun longer hle hge hne => ?_⟩
    exact absurd (hge.eq_of_length_le hle.length_le) hne
  | above hfile hparent _ ih =>
    obtain ⟨hq, last, hnames⟩ := hp.parent hparent
    have hfound := ih hq hroot
    rw [hp.pathExists_eq] at hfile
    refine ⟨hfound.searchable, hfound.holds, ?_, fun longer hle hge hne => ?_⟩
    · rw [hnames]
      exact hfound.front.trans (List.prefix_append _ _)
    · -- A front part is either the whole path, which was just looked at, or one of the parent's
      rw [hnames] at hge
      rcases List.prefix_concat_iff.mp hge with rfl | hge
      · rw [← hnames]
        exact hfile
      · exact hfound.longest longer hle hge hne
  | nowhere => exact nomatch hroot

/-- `FileTree.Nearest` finds nothing only if no front part of the names has a project file. -/
private theorem holdsProject_eq_false (h : t.Nearest p root) (hp : Searchable t p) (hroot : root = none)
    {front : List String} (hfront : front <+: p.names) :
    t.holdsProject (front.foldl FileTree.step []) = false := by
  -- Induction on the search, down to the path without names
  induction h with
  | here => exact nomatch hroot
  | above hfile hparent _ ih =>
    obtain ⟨hq, last, hnames⟩ := hp.parent hparent
    rw [hp.pathExists_eq] at hfile
    rw [hnames] at hfront
    rcases List.prefix_concat_iff.mp hfront with rfl | hfront
    · rw [← hnames]
      exact hfile
    · exact ih hq hroot hfront
  | nowhere hfile hparent =>
    rw [hp.pathExists_eq] at hfile
    rcases Path.parent?_cases hp.absolute with ⟨-, hnames⟩ | ⟨q, -, hsome, -⟩
    · rw [hnames] at hfront
      rw [Path.place, hnames] at hfile
      rw [List.prefix_nil.mp hfront]
      exact hfile
    · rw [hparent] at hsome
      exact nomatch hsome

end FileTree.Nearest

namespace StopsAt

variable {t : FileTree} {p root : Path}

/-- `StopsAt` leaves every project file at or above the directory that the path leads to at or above the
    one found. -/
private theorem suffix_of_holdsProject (h : StopsAt t p root) {above : List String}
    (habove : above <:+ p.place)
    (hholds : t.holdsProject above = true) : above <:+ root.place := by
  obtain ⟨front, hfront, rfl, hstays⟩ := FileTree.exists_front p.names habove
  by_cases hle : front.length ≤ root.names.length
  · exact hstays _ (List.prefix_of_prefix_length_le hfront h.front hle) h.front
  · have hlonger : root.names <+: front :=
      List.prefix_of_prefix_length_le h.front hfront (Nat.le_of_not_le hle)
    have hne : front ≠ root.names := by
      rintro rfl
      exact hle (Nat.le_refl _)
    rw [h.longest front hlonger hfront hne] at hholds
    exact nomatch hholds

end StopsAt

namespace Loader

variable {t : FileTree} {start : Path}

/-- `Loader.complete` reports the root that it is given. -/
private theorem projectRoot_of_complete {l : Loader} {home : Option Path} {env : Environment}
    {root : Option Path} {project : Layer} {config : Config}
    (h : (l.complete t home env root project).1 = .ok config) :
    config.projectRoot = root.map (·.text) := by
  cases hlayer : env.override project with
  | error e =>
    rw [complete_of_error hlayer] at h
    exact nomatch h
  | ok layer =>
    rw [complete_of_ok hlayer] at h
    cases h
    rfl

/-- `Loader.loadDirectory` reports as the project what the search has found. -/
private theorem projectRoot_of_loadDirectory {l : Loader} {home : Option Path} {env : Environment}
    {config : Config} (h : (l.loadDirectory t home env start).1 = .ok config) :
    config.projectRoot = (projectRoot? t start).map (·.text) := by
  unfold loadDirectory findProject at h
  cases hroot : projectRoot? t start with
  | none =>
    simp only [hroot] at h
    exact projectRoot_of_complete h
  | some root =>
    cases hload : Layer.load t (root.join projectFileName) with
    | error e =>
      simp only [hroot, hload] at h
      exact nomatch h
    | ok project =>
      simp only [hroot, hload] at h
      exact projectRoot_of_complete h

/-- `Loader.projectRoot?` from a directory ends, as it visits one path more than there are names.  What
    it finds leads to a directory with a project file (`StopsAt`), and no other one at or above the
    directory where it starts is nearer to this; but if two dots follow in the path, the directory need
    not be above this one.  Nothing is found only if no directory above has a project file.  Unless
    there is a project file in a directory that the path leaves by two dots and that is not above where
    it leads to, the search goes up: it finds the nearest project file, or nothing if there is none.
    This is what `Loader.loadDirectory` reports. -/
theorem search_of_directory (h : Searchable t start) :
    start.selfAndParents.length = start.names.length + 1 ∧
    t.follow [] start.parts = .ok (start.place, .directory) ∧
    (∀ root, projectRoot? t start = some root →
      StopsAt t start root ∧ t.follow [] root.parts = .ok (root.place, .directory) ∧
      (∀ above, above <:+ start.place → t.holdsProject above = true → above <:+ root.place) ∧
      ∃ back, start.names = root.names ++ back ∧ (".." ∉ back → root.place <:+ start.place)) ∧
    (projectRoot? t start = none →
      ∀ above, above <:+ start.place → t.holdsProject above = false) ∧
    ((∀ front back, start.names = front ++ back → ".." ∈ back →
        t.holdsProject (front.foldl FileTree.step []) = true →
        front.foldl FileTree.step [] <:+ start.place) →
      (∀ root, projectRoot? t start = some root → root.place <:+ start.place) ∧
      (projectRoot? t start = none ↔
        ∀ above, above <:+ start.place → t.holdsProject above = false)) ∧
    ∀ (l : Loader) (home : Option Path) (env : Environment) (config : Config),
      (l.loadDirectory t home env start).1 = .ok config →
      config.projectRoot = (projectRoot? t start).map (·.text) := by
  have hnearest := t.nearest_projectRoot? start
  -- What the search takes off the path are the last names; only two dots among them lead up
  have hback : ∀ root, projectRoot? t start = some root →
      ∃ back, start.names = root.names ++ back ∧ (".." ∉ back → root.place <:+ start.place) := by
    intro root hroot
    obtain ⟨back, hnames⟩ := (hnearest.stopsAt h hroot).front
    refine ⟨back, hnames.symm, fun hdots => ?_⟩
    rw [Path.place, Path.place, ← hnames, List.foldl_append]
    exact FileTree.foldl_step_suffix hdots _
  -- A directory above the start is passed by some front part of the names, and those were all looked at
  have hnone : projectRoot? t start = none →
      ∀ above, above <:+ start.place → t.holdsProject above = false := by
    intro hroot above habove
    obtain ⟨front, hfront, rfl, -⟩ := FileTree.exists_front start.names habove
    exact hnearest.holdsProject_eq_false h hroot hfront
  refine ⟨Path.length_selfAndParents h.absolute, h.follow_parts, fun root hroot => ?_, hnone,
    fun hclean => ?_, fun l home env config hload => projectRoot_of_loadDirectory hload⟩
  -- What is found
  · have hstops := hnearest.stopsAt h hroot
    exact ⟨hstops, hstops.searchable.follow_parts, fun above => hstops.suffix_of_holdsProject,
      hback root hroot⟩
  -- Without a project file in front of two dots the search goes up the tree as it goes up the path
  · have hsuffix : ∀ root, projectRoot? t start = some root → root.place <:+ start.place := by
      intro root hroot
      obtain ⟨back, hnames, hup⟩ := hback root hroot
      by_cases hdots : ".." ∈ back
      · exact hclean root.names back hnames hdots (hnearest.stopsAt h hroot).holds
      · exact hup hdots
    refine ⟨hsuffix, hnone, fun hmissing => ?_⟩
    cases hroot : projectRoot? t start with
    | none => rfl
    | some root =>
      have hholds := (hnearest.stopsAt h hroot).holds
      rw [hmissing root.place (hsuffix root hroot)] at hholds
      exact nomatch hholds

/-- A project in `/a`, with a directory `/a/b`. -/
def detour : FileTree :=
  ⟨[(["b", "a"], .directory), (["a"], .directory), (["kestrel.toml", "a"], .file "".toUTF8)]⟩

/-- `Searchable` holds of a path with dots in `detour`. -/
private theorem searchable_detour : Searchable detour ⟨"/a/./b/../b"⟩ where
  absolute := rfl
  directory := by
    have hparts : (Path.mk "/a/./b/../b").parts = ["", "a", ".", "b", "..", "b"] := by decide +kernel
    rw [FileTree.lookup_of_fits (by decide +kernel) (by decide +kernel) (by decide +kernel), hparts]
    rfl
  room := by decide +kernel

/-- From `/a/b` the project in `/a` is found, whatever detours the path makes. -/
theorem search_of_directory_dotted :
    ∃ root, projectRoot? detour ⟨"/a/./b/../b"⟩ = some root ∧ root.place = ["a"] := by
  obtain ⟨-, -, hfound, -, hclean, -⟩ := search_of_directory searchable_detour
  have hnames : Path.names ⟨"/a/./b/../b"⟩ = ["a", "b", "..", "b"] := by decide +kernel
  have hplace : Path.place ⟨"/a/./b/../b"⟩ = ["b", "a"] := by decide +kernel
  rw [hplace] at hfound hclean
  -- The path passes `/`, `/a` and `/a/b` only
  have hpassed : ∀ front ∈ ["a", "b", "..", "b"].inits,
      front.foldl FileTree.step [] <:+ ["b", "a"] := by decide
  obtain ⟨hsuffix, hnone⟩ := hclean fun front back hsplit _ _ =>
    hpassed front ((List.mem_inits _ _).mpr ⟨back, hsplit.symm.trans hnames⟩)
  have hholds : detour.holdsProject ["a"] = true := rfl
  have hmissing : detour.holdsProject ["b", "a"] = false := rfl
  cases hroot : projectRoot? detour ⟨"/a/./b/../b"⟩ with
  | none =>
    rw [hnone.mp hroot ["a"] (by decide)] at hholds
    exact nomatch hholds
  | some root =>
    obtain ⟨hstops, -, hnearest, -⟩ := hfound root hroot
    have hroot_holds := hstops.holds
    refine ⟨root, rfl, ?_⟩
    -- There is no project in `/a/b`, and the one in `/a` is nearer than any above it
    rcases List.suffix_cons_iff.mp (hsuffix root hroot) with hinner | hle
    · rw [hinner, hmissing] at hroot_holds
      exact nomatch hroot_holds
    · exact hle.eq_of_length_le (hnearest ["a"] (by decide) hholds).length_le

/-- A project in `/a/b`, and nothing in `/a`. -/
def inner : FileTree :=
  ⟨[(["b", "a"], .directory), (["a"], .directory), (["kestrel.toml", "b", "a"], .file "".toUTF8)]⟩

/-- `Searchable` holds of a path with two dots at its end in `inner`. -/
private theorem searchable_inner : Searchable inner ⟨"/a/b/.."⟩ where
  absolute := rfl
  directory := by
    have hparts : (Path.mk "/a/b/..").parts = ["", "a", "b", ".."] := by decide +kernel
    rw [FileTree.lookup_of_fits (by decide +kernel) (by decide +kernel) (by decide +kernel), hparts]
    rfl
  room := by decide +kernel

/-- From `/a/b/..`, which is `/a`, the project in `/a/b` is found, though no directory from `/a` upwards has
    one. -/
theorem not_searched_upwards :
    Searchable inner ⟨"/a/b/.."⟩ ∧ Path.place ⟨"/a/b/.."⟩ = ["a"] ∧
      projectRoot? inner ⟨"/a/b/.."⟩ = some ⟨"/a/b"⟩ ∧
      ¬Path.place ⟨"/a/b"⟩ <:+ Path.place ⟨"/a/b/.."⟩ ∧
      ∀ above, above <:+ Path.place ⟨"/a/b/.."⟩ → inner.holdsProject above = false := by
  have hplace : Path.place ⟨"/a/b/.."⟩ = ["a"] := by decide +kernel
  have hinner : Path.place ⟨"/a/b"⟩ = ["b", "a"] := by decide +kernel
  have hparent : Path.parent? ⟨"/a/b/.."⟩ = some ⟨"/a/b"⟩ := by decide +kernel
  -- The first step of the search takes the two dots off, and so goes down
  have hnearest : inner.Nearest ⟨"/a/b/.."⟩ (some ⟨"/a/b"⟩) := by
    apply FileTree.Nearest.above (q := ⟨"/a/b"⟩)
    · rw [searchable_inner.pathExists_eq, hplace]
      rfl
    · exact hparent
    · apply FileTree.Nearest.here
      rw [(searchable_inner.parent hparent).1.pathExists_eq, hinner]
      rfl
  rw [hplace, hinner]
  refine ⟨searchable_inner, rfl, hnearest.projectRoot?_eq, by decide, fun above habove => ?_⟩
  rcases List.suffix_cons_iff.mp habove with rfl | hle
  · rfl
  · rw [List.suffix_nil.mp hle]
    rfl

end Loader

end StackTrace
