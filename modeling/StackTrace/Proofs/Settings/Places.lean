import Mathlib.Data.List.Induction
import StackTrace.Proofs.Settings.Loading

/-!
# Names of a path

The parts of a path that are neither empty nor a dot are its names; two dots are one of them.  The parent of
an absolute path has the same names but the last, and where a path leads depends on its names alone, as long
as this is a directory.

## Key results

- `Path.parent?_cases`: what the parent of an absolute path is
- `FileTree.follow_names_iff`: a path leads to a directory exactly if its names do
- `FileTree.exists_front`: every directory above another one is passed on the way to it
-/

namespace StackTrace

namespace Path

/-- The part leads away from where it stands. -/
def isName (part : String) : Bool := part != "" && part != "."

/-- The parts between the slashes of a text that are names by `isName`. -/
def namesOf (cs : List Char) : List String := ((cs.splitOn '/').map String.ofList).filter isName

/-- The `Path.parts` that are names. -/
def names (p : Path) : List String := p.parts.filter isName

/-- The path begins at the top. -/
def IsAbsolute (p : Path) : Prop := p.text.toList.head? = some '/'

/-- `Path.names` in terms of `namesOf`. -/
theorem names_eq (p : Path) : p.names = namesOf p.text.toList := rfl

/-- `namesOf` finds no name in a text without characters. -/
@[simp] theorem namesOf_nil : namesOf [] = [] := by decide +kernel

/-- `namesOf` takes two texts with a slash between them one after the other. -/
theorem namesOf_append_slash (xs ys : List Char) :
    namesOf (xs ++ '/' :: ys) = namesOf xs ++ namesOf ys := by
  unfold namesOf
  rw [List.splitOn_append_cons_self, List.map_append, List.filter_append]

/-- `namesOf` takes a text without slashes as one name, if it is one. -/
private theorem namesOf_of_not_mem {cs : List Char} (h : '/' ∉ cs)
    (hname : isName (String.ofList cs) = true) :
    namesOf cs = [String.ofList cs] := by
  unfold namesOf
  rw [List.splitOn_eq_singleton h, List.map_singleton, List.filter_cons_of_pos hname, List.filter_nil]

/-- `trimEnd` takes no names off a path. -/
private theorem namesOf_trimEnd (rs : List Char) : namesOf (trimEnd rs).reverse = namesOf rs.reverse := by
  fun_induction trimEnd rs with
  | case1 => rfl
  | case2 => rfl
  | case3 rest _ ih =>
    rw [ih, List.reverse_cons, namesOf_append_slash, namesOf_nil, List.append_nil]
  | case4 rest ih =>
    have hdot : namesOf ['.'] = [] := by decide +kernel
    rw [ih, List.reverse_cons, List.reverse_cons, List.reverse_cons, List.append_assoc,
      List.cons_append, List.nil_append, namesOf_append_slash, namesOf_append_slash, namesOf_nil, hdot]
  | case5 => rfl

/-- `trimEnd` does not take the first character off a path. -/
private theorem getLast?_trimEnd (rs : List Char) : (trimEnd rs).getLast? = rs.getLast? := by
  fun_induction trimEnd rs with
  | case1 => rfl
  | case2 => rfl
  | case3 rest hne ih =>
    cases rest with
    | nil => exact absurd rfl hne
    | cons c cs => exact ih
  | case4 rest ih => exact ih
  | case5 => rfl

/-- `trimEnd` leaves a front part of the path. -/
private theorem trimEnd_suffix (rs : List Char) : trimEnd rs <:+ rs := by
  fun_induction trimEnd rs with
  | case1 => exact List.suffix_rfl
  | case2 => exact List.suffix_rfl
  | case3 rest _ ih => exact ih.trans (List.suffix_cons _ _)
  | case4 rest ih => exact ih.trans (List.suffix_cons _ _)
  | case5 => exact List.suffix_rfl

/-- `trimEnd` leaves nothing that could be trimmed off. -/
private theorem trimEnd_ne_dot (rs rest : List Char) : trimEnd rs ≠ '.' :: '/' :: rest := by
  fun_induction trimEnd rs with
  | case1 => exact (List.cons_ne_nil _ _).symm
  | case2 => exact fun h => absurd (List.cons.inj h).1 (by decide)
  | case3 rest _ ih => exact ih
  | case4 rest ih => exact ih
  | case5 cs _ _ _ hdot => exact hdot rest

/-- `namesOf` ends with the part behind the last slash, unless there is something to trim off. -/
private theorem namesOf_last {part front : List Char} (hne : part ≠ []) (hdot : part ≠ ['.'])
    (hslash : '/' ∉ part) :
    namesOf (part ++ '/' :: front).reverse = namesOf front.reverse ++ [String.ofList part.reverse] := by
  have hname : isName (String.ofList part.reverse) = true := by
    simp only [isName, Bool.and_eq_true, bne_iff_ne]
    refine ⟨fun hempty => hne ?_, fun hsingle => hdot ?_⟩
    · have hlist := congrArg String.toList hempty
      rw [String.toList_ofList] at hlist
      exact List.reverse_eq_nil_iff.mp hlist
    · have hlist := congrArg String.toList hsingle
      rw [String.toList_ofList] at hlist
      exact List.reverse_eq_iff.mp hlist
  rw [List.reverse_append, List.reverse_cons, List.append_assoc, List.cons_append, List.nil_append,
    namesOf_append_slash, namesOf_of_not_mem (mt List.mem_reverse.mp hslash) hname]

/-- `List.dropWhile` cuts a text off from its end as far as the last slash. -/
private theorem exists_last_slash {cs : List Char} (h : '/' ∈ cs) :
    ∃ part front, cs = part ++ '/' :: front ∧ '/' ∉ part ∧
      cs.dropWhile (· != '/') = '/' :: front := by
  obtain ⟨part, front, rfl, hpart⟩ := List.eq_append_cons_of_mem h
  have hpassed : ∀ c ∈ part, (c != '/') = true := fun c hc =>
    bne_iff_ne.mpr (ne_of_mem_of_not_mem hc hpart)
  refine ⟨part, front, rfl, hpart, ?_⟩
  rw [List.dropWhile_append_of_pos hpassed, List.dropWhile_cons_of_neg (by decide)]

/-- `Path.parent?` of an absolute path: without names it has none; else the parent is absolute, the
    front part of its text, and has all its names but the last. -/
theorem parent?_cases {p : Path} (h : p.IsAbsolute) :
    (p.parent? = none ∧ p.names = []) ∨
    ∃ q last, p.parent? = some q ∧ q.IsAbsolute ∧ q.text.toList <+: p.text.toList ∧
      p.names = q.names ++ [last] := by
  have hnames : namesOf (trimEnd p.text.toList.reverse).reverse = p.names := by
    rw [namesOf_trimEnd, List.reverse_reverse, names_eq]
  have hfirst : (trimEnd p.text.toList.reverse).getLast? = some '/' := by
    rw [getLast?_trimEnd, List.getLast?_reverse]
    exact h
  have hslash : ∀ rest, trimEnd p.text.toList.reverse = '/' :: rest → rest = [] := fun _ =>
    eq_nil_of_trimEnd_eq
  have hdot := trimEnd_ne_dot p.text.toList.reverse
  have hsuffix := trimEnd_suffix p.text.toList.reverse
  unfold parent?
  -- The cases of `parent?`: no text, the root alone, or a last part behind a slash
  generalize trimEnd p.text.toList.reverse = cs at hnames hfirst hslash hdot hsuffix
  split
  · exact nomatch hfirst
  · refine .inl ⟨rfl, ?_⟩
    rw [← hnames]
    decide +kernel
  · rename_i hempty htop
    obtain ⟨part, front, rfl, hpart, hfront⟩ := exists_last_slash (List.mem_of_getLast? hfirst)
    rw [hfront]
    have hne : part ≠ [] := by
      rintro rfl
      exact htop (by rw [List.nil_append, hslash front rfl])
    have hdot' : part ≠ ['.'] := by
      rintro rfl
      exact hdot front rfl
    -- The parent is what is in front of the slash, with the slash itself if nothing else is there
    refine .inr ⟨_, String.ofList part.reverse, rfl, ?_, ?_, ?_⟩
    · rw [IsAbsolute, String.toList_ofList, List.head?_reverse, getLast?_trimEnd]
      rw [List.getLast?_append, List.getLast?_cons, Option.some_or] at hfirst
      rw [List.getLast?_cons, hfirst]
    · rw [String.toList_ofList, ← List.reverse_suffix, List.reverse_reverse]
      exact ((trimEnd_suffix _).trans (List.suffix_append part _)).trans hsuffix
    · rw [← hnames, namesOf_last hne hdot' hpart, names_eq,
        String.toList_ofList, namesOf_trimEnd, List.reverse_cons, namesOf_append_slash, namesOf_nil,
        List.append_nil]

end Path

/-- The place that a path leads to by `FileTree.step`, if it leads anywhere. -/
def Path.place (p : Path) : List String := p.names.foldl FileTree.step []

namespace FileTree

variable {t : FileTree} {place above : List String} {entry : FileEntry}

/-! ## Following a path -/

/-- A part that is no name does not lead `FileTree.step` anywhere. -/
private theorem step_of_not_isName {part : String} (h : Path.isName part = false) (place : List String) :
    step place part = place := by
  simp only [Path.isName, Bool.and_eq_false_iff, bne_eq_false_iff_eq] at h
  rw [step, if_pos h]

/-- `FileTree.step` leads nowhere, up or down; two dots do not lead down. -/
theorem step_cases (place : List String) (part : String) :
    step place part = place ∨ part = ".." ∧ step place part = place.tail ∨
      step place part = part :: place := by
  unfold step
  split
  · exact .inl rfl
  · split
    · rename_i hpart
      exact .inr (.inl ⟨hpart, rfl⟩)
    · exact .inr (.inr rfl)

/-- `FileTree.follow` takes a part from a directory only, and then follows the rest. -/
theorem follow_cons (t : FileTree) (place : List String) (part : String) (parts : List String) :
    t.follow place (part :: parts) =
      match t.at? place with
      | none => .error .notFound
      | some (.file _) => .error .notADirectory
      | some .directory =>
        if maxNameBytes < part.utf8ByteSize then .error .nameTooLong
        else t.follow (step place part) parts := rfl

/-- `FileTree.follow` leads somewhere with a part in front if the part can be taken from a directory,
    and the rest leads there. -/
private theorem follow_cons_eq_ok_iff {part : String} {parts : List String} {r : List String × FileEntry} :
    t.follow place (part :: parts) = .ok r ↔
      t.at? place = some .directory ∧ part.utf8ByteSize ≤ maxNameBytes ∧
        t.follow (step place part) parts = .ok r := by
  rw [follow_cons]
  split
  · rename_i hentry
    simp only [hentry, reduceCtorEq, false_and]
  · rename_i hentry
    simp only [hentry, reduceCtorEq, Option.some.injEq, false_and]
  · rename_i hentry
    split
    · rename_i hlong
      simp only [reduceCtorEq, false_iff]
      rintro ⟨-, hfits, -⟩
      omega
    · rename_i hlong
      simp only [hentry, true_and]
      exact ⟨fun h => ⟨by omega, h⟩, fun h => h.2⟩

/-- Without parts `FileTree.follow` stays at the place, if there is something. -/
private theorem follow_nil_eq_ok_iff {r : List String × FileEntry} :
    t.follow place [] = .ok r ↔ r.1 = place ∧ t.at? place = some r.2 := by
  obtain ⟨place', entry⟩ := r
  rw [follow]
  cases t.at? place with
  | none => simp only [reduceCtorEq, and_false]
  | some entry' => simp only [Except.ok.injEq, Prod.mk.injEq, Option.some.injEq, eq_comm]

/-- `FileTree.follow` leads to something that is there. -/
theorem at?_of_follow {parts : List String} (h : t.follow place parts = .ok (above, entry)) :
    t.at? above = some entry := by
  induction parts generalizing place with
  | nil =>
    obtain ⟨rfl, hentry⟩ := follow_nil_eq_ok_iff.mp h
    exact hentry
  | cons part parts ih => exact ih (follow_cons_eq_ok_iff.mp h).2.2

/-- `FileTree.follow` goes along two lists of parts one after the other, if the first one leads to a
    directory. -/
theorem follow_append {front : List String} (h : t.follow place front = .ok (above, .directory))
    (back : List String) : t.follow place (front ++ back) = t.follow above back := by
  induction front generalizing place with
  | nil =>
    obtain ⟨rfl, -⟩ := follow_nil_eq_ok_iff.mp h
    rfl
  | cons part front ih =>
    obtain ⟨hentry, hfits, hrest⟩ := follow_cons_eq_ok_iff.mp h
    rw [List.cons_append, follow_cons, hentry]
    dsimp only
    rw [if_neg (Nat.not_lt_of_le hfits)]
    exact ih hrest

/-- On the way to a directory `FileTree.follow` passes directories only. -/
theorem exists_follow_front {front back : List String}
    (h : t.follow place (front ++ back) = .ok (above, .directory)) :
    t.follow place front = .ok (front.foldl step place, .directory) := by
  induction front generalizing place with
  | nil =>
    rw [follow_nil_eq_ok_iff]
    cases back with
    | nil =>
      obtain ⟨rfl, hentry⟩ := follow_nil_eq_ok_iff.mp h
      exact ⟨rfl, hentry⟩
    | cons part back => exact ⟨rfl, (follow_cons_eq_ok_iff.mp h).1⟩
  | cons part front ih =>
    obtain ⟨hentry, hfits, hrest⟩ := follow_cons_eq_ok_iff.mp h
    exact follow_cons_eq_ok_iff.mpr ⟨hentry, hfits, ih hrest⟩

/-- `FileTree.follow` leads to a directory exactly if the names do. -/
theorem follow_names_iff {parts : List String} :
    t.follow place parts = .ok (above, .directory) ↔
      t.follow place (parts.filter Path.isName) = .ok (above, .directory) := by
  -- Induction on the parts; one that is no name stays at its place
  induction parts generalizing place with
  | nil => rfl
  | cons part parts ih =>
    cases hname : Path.isName part with
    | true =>
      rw [List.filter_cons_of_pos hname, follow_cons_eq_ok_iff, follow_cons_eq_ok_iff, ih]
    | false =>
      rw [List.filter_cons_of_neg (Bool.not_eq_true _ ▸ hname), follow_cons_eq_ok_iff,
        step_of_not_isName hname, ← ih]
      constructor
      · exact fun h => h.2.2
      · intro h
        -- The part itself is only asked to be followed from a directory
        have hfront : t.follow place ([] ++ parts) = .ok (above, .directory) := h
        refine ⟨(follow_nil_eq_ok_iff.mp (exists_follow_front hfront)).2, ?_, h⟩
        simp only [Path.isName, Bool.and_eq_false_iff, bne_eq_false_iff_eq] at hname
        rcases hname with rfl | rfl <;> decide

/-! ## Places on the way -/

/-- Every directory above the one that names lead to by `FileTree.step` is passed on the way, and from
    the last time on the way stays below it. -/
theorem exists_front (names : List String) (h : above <:+ names.foldl step []) :
    ∃ front, front <+: names ∧ front.foldl step [] = above ∧
      ∀ longer, front <+: longer → longer <+: names → above <:+ longer.foldl step [] := by
  -- Induction on the names from the last one backwards, for the last time that the directory is passed
  induction names using List.reverseRecOn with
  | nil =>
    obtain rfl := List.suffix_nil.mp h
    refine ⟨[], List.prefix_rfl, rfl, fun longer _ _ => List.nil_suffix⟩
  | append_singleton names name ih =>
    -- Unless the last name leads there, the directory is passed before it
    by_cases hlast : above = (names ++ [name]).foldl step []
    · refine ⟨names ++ [name], List.prefix_rfl, hlast.symm, fun longer hle hge => ?_⟩
      rwa [hge.eq_of_length_le hle.length_le]
    · have hbefore : above <:+ names.foldl step [] := by
        rw [List.foldl_append, List.foldl_cons, List.foldl_nil] at h hlast
        rcases step_cases (names.foldl step []) name with hstep | ⟨-, hstep⟩ | hstep
        · rwa [hstep] at h
        · rw [hstep] at h
          exact h.trans (List.tail_suffix _)
        · rw [hstep] at h hlast
          exact (List.suffix_cons_iff.mp h).resolve_left hlast
      obtain ⟨front, hfront, hplace, hstays⟩ := ih hbefore
      refine ⟨front, hfront.trans (List.prefix_append _ _), hplace, fun longer hle hge => ?_⟩
      rcases List.prefix_concat_iff.mp hge with rfl | hge
      · exact h
      · exact hstays longer hle hge

/-- `FileTree.step` goes down only where no two dots are left. -/
theorem foldl_step_suffix {back : List String} (h : ".." ∉ back) (place : List String) :
    place <:+ back.foldl step place := by
  induction back generalizing place with
  | nil => exact List.suffix_rfl
  | cons name back ih =>
    rw [List.mem_cons, not_or] at h
    have hdown : place <:+ step place name := by
      rcases step_cases place name with hstep | ⟨hup, -⟩ | hstep
      · simp only [hstep, List.suffix_refl]
      · exact absurd hup.symm h.1
      · simp only [hstep, List.suffix_cons]
    exact hdown.trans (ih h.2 (step place name))

end FileTree

end StackTrace
