import StackTrace.Proofs.Program.Alive

/-!
# Which classes the roots keep alive

The marks are set along the superclasses of each root in turn, and marking stops at a class that is
marked already.  Nothing is missed by that, since the superclasses of a marked class have been marked
before.

## Key results

- `Program.mem_ancestors_trans`: the superclasses of a superclass are superclasses
- `Program.contains_owned_iff`: a class is kept alive if and only if it is an ancestor of a root
-/

namespace StackTrace

namespace Program

variable {p : Program} {x y z : ClassId}

/-! ## Superclasses -/

/-- `Program.ancestors` of a class with a superclass are the class and those of the superclass. -/
theorem ancestors_of_super (hsuper : (p.get? x).bind (·.super) = some y)
    (hlt : y.index < x.index) : p.ancestors x = x :: p.ancestors y := by
  rw [ancestors, hsuper]
  exact if_pos hlt

/-- `Program.ancestors` end at a class without a superclass.  A class that was not defined before does
    not count as one. -/
private theorem ancestors_of_last
    (hlast : ∀ y, (p.get? x).bind (·.super) = some y → ¬y.index < x.index) :
    p.ancestors x = [x] := by
  rw [ancestors]
  split
  · rfl
  · rename_i sup hsuper
    exact if_neg (hlast sup hsuper)

/-- `Program.ancestors` of a class without a superclass are the class alone. -/
private theorem ancestors_of_none (hnone : (p.get? x).bind (·.super) = none) : p.ancestors x = [x] := by
  apply ancestors_of_last
  intro y hy
  rw [hnone] at hy
  cases hy

/-- `Program.ancestors` end, too, where a superclass was not defined before. -/
private theorem ancestors_of_not_lt (hsuper : (p.get? x).bind (·.super) = some y)
    (hge : ¬y.index < x.index) : p.ancestors x = [x] := by
  apply ancestors_of_last
  intro y' hy'
  rw [hsuper] at hy'
  cases hy'
  exact hge

/-- A class is among its `Program.ancestors`. -/
theorem mem_ancestors_self (p : Program) (x : ClassId) : x ∈ p.ancestors x := by
  unfold ancestors
  split
  · simp
  · split
    · simp
    · simp

/-- No class among the `Program.ancestors` of a class was defined after it. -/
theorem index_le_of_mem_ancestors (h : y ∈ p.ancestors x) : y.index ≤ x.index := by
  fun_induction p.ancestors x with
  | case1 => exact Nat.le_of_eq (congrArg ClassId.index (List.mem_singleton.mp h))
  | case2 x sup _ hlt ih =>
    rcases List.mem_cons.mp h with rfl | h
    · exact Nat.le_refl _
    · have hle := ih h
      omega
  | case3 => exact Nat.le_of_eq (congrArg ClassId.index (List.mem_singleton.mp h))

/-- `Program.ancestors` of an ancestor are ancestors. -/
theorem mem_ancestors_trans (hy : y ∈ p.ancestors x) (hz : z ∈ p.ancestors y) :
    z ∈ p.ancestors x := by
  fun_induction p.ancestors x with
  | case1 x hnone =>
    rw [List.mem_singleton.mp hy, ancestors_of_none hnone] at hz
    exact hz
  | case2 x sup hsuper hlt ih =>
    rcases List.mem_cons.mp hy with rfl | hy
    · rw [← ancestors_of_super hsuper hlt]
      exact hz
    · exact List.mem_cons_of_mem x (ih hy)
  | case3 x sup hsuper hge =>
    rw [List.mem_singleton.mp hy, ancestors_of_not_lt hsuper hge] at hz
    exact hz

/-! ## Marks -/

/-- A class that was just marked is one that `ClassSet.contains` finds, if it is one of the
    program's. -/
private theorem contains_mark (s : ClassSet) (x y : ClassId) :
    (⟨s.marks.setIfInBounds x.index true⟩ : ClassSet).contains y = true ↔
      s.contains y = true ∨ (y = x ∧ y.index < s.marks.size) := by
  have heq : y = x ↔ x.index = y.index := by
    cases x
    cases y
    simp [eq_comm]
  simp only [ClassSet.contains, Array.getD_eq_getD_getElem?, Array.getElem?_setIfInBounds]
  by_cases hxy : x.index = y.index
  · by_cases hlt : y.index < s.marks.size
    · simp [hxy, hlt, heq]
    · simp [hxy, hlt]
  · simp [hxy, heq]

/-- Of each class of the chain from `x` on that is marked, the superclasses are marked, too. -/
def ClosedFrom (p : Program) (s : ClassSet) (x : ClassId) : Prop :=
  ∀ y ∈ p.ancestors x, s.contains y = true → ∀ z ∈ p.ancestors y, s.contains z = true

/-- `Program.own` marks a class and its superclasses, as far as they are classes of the program. -/
private theorem contains_own_iff {s : ClassSet} (hclosed : p.ClosedFrom s x) :
    (p.own s x).contains y = true ↔
      s.contains y = true ∨ (y ∈ p.ancestors x ∧ y.index < s.marks.size) := by
  -- Along the recursion of `own`: marked already, the last of the chain, or with a superclass
  fun_induction p.own s x with
  | case1 s x hmarked =>
    refine ⟨.inl, fun h => h.elim id fun h => ?_⟩
    exact hclosed x (p.mem_ancestors_self x) hmarked y h.1
  | case2 s x _ s' hnone =>
    rw [contains_mark, ancestors_of_none hnone, List.mem_singleton]
  | case3 s x _ s' sup hsuper hlt ih =>
    have hchain := ancestors_of_super hsuper hlt
    -- `x` itself is not met again on the rest of the chain
    have hrest : p.ClosedFrom s' sup := by
      intro z hz hcontains w hw
      have hle := index_le_of_mem_ancestors hz
      have hne : z ≠ x := by
        rintro rfl
        omega
      have hold := ((contains_mark s x z).mp hcontains).resolve_right fun h => hne h.1
      exact (contains_mark s x w).mpr
        (.inl (hclosed z (hchain ▸ List.mem_cons_of_mem x hz) hold w hw))
    have hsize : s'.marks.size = s.marks.size := Array.size_setIfInBounds
    rw [ih hrest, contains_mark, hchain, List.mem_cons, hsize, or_assoc, ← or_and_right]
  | case4 s x _ s' sup hsuper hge =>
    rw [contains_mark, ancestors_of_not_lt hsuper hge, List.mem_singleton]

/-- `Program.own` leaves a set that has the superclasses of each member. -/
private theorem closedFrom_own {s : ClassSet} (hclosed : ∀ x, p.ClosedFrom s x) (r x : ClassId) :
    p.ClosedFrom (p.own s r) x := by
  intro y _ hcontains z hz
  rw [contains_own_iff (hclosed r)] at hcontains ⊢
  rcases hcontains with hold | ⟨hmem, hlt⟩
  · exact .inl (hclosed y y (p.mem_ancestors_self y) hold z hz)
  · have hle := index_le_of_mem_ancestors hz
    exact .inr ⟨mem_ancestors_trans hmem hz, by omega⟩

/-- `Program.own` of classes one after the other marks the ancestors of each. -/
private theorem contains_foldl_own_iff (roots : List ClassId) {s : ClassSet}
    (hclosed : ∀ x, p.ClosedFrom s x) :
    (roots.foldl p.own s).contains y = true ↔
      s.contains y = true ∨ ((∃ r ∈ roots, y ∈ p.ancestors r) ∧ y.index < s.marks.size) := by
  induction roots generalizing s with
  | nil => simp
  | cons r roots ih =>
    rw [List.foldl_cons, ih (closedFrom_own hclosed r), contains_own_iff (hclosed r),
      p.size_marks_own, or_assoc, ← or_and_right]
    simp only [List.mem_cons, exists_eq_or_imp]

/-- `Program.owned` keeps a class alive if and only if it is a class of the program and an ancestor of a
    root. -/
theorem contains_owned_iff (p : Program) (roots : List ClassId) (x : ClassId) :
    (p.owned roots).contains x = true ↔
      (∃ r ∈ roots, x ∈ p.ancestors r) ∧ x.index < p.classes.size := by
  have hempty : ∀ y, (⟨Array.replicate p.classes.size false⟩ : ClassSet).contains y = false := by
    intro y
    simp only [ClassSet.contains, Array.getD_eq_getD_getElem?, Array.getElem?_replicate]
    split
    · rfl
    · rfl
  rw [owned, contains_foldl_own_iff roots]
  · simp [hempty]
  · intro x y _ hcontains
    exact absurd hcontains (by simp [hempty])

/-- `Program.owned` does not depend on the order of the roots, nor on how often they are listed. -/
theorem contains_owned_congr (p : Program) {roots roots' : List ClassId}
    (h : ∀ r, r ∈ roots ↔ r ∈ roots') : (p.owned roots).contains = (p.owned roots').contains := by
  funext x
  rw [Bool.eq_iff_iff, contains_owned_iff, contains_owned_iff]
  simp only [h]

/-- `Program.owned` with more roots keeps no fewer classes alive. -/
theorem contains_owned_mono (p : Program) {roots roots' : List ClassId} (h : roots ⊆ roots')
    (hx : (p.owned roots).contains x = true) : (p.owned roots').contains x = true := by
  obtain ⟨⟨r, hr, hmem⟩, hlt⟩ := (p.contains_owned_iff roots x).mp hx
  exact (p.contains_owned_iff roots' x).mpr ⟨⟨r, h hr, hmem⟩, hlt⟩

/-- `Program.owned` keeps the superclasses of what it keeps alive. -/
theorem contains_owned_of_mem_ancestors {roots : List ClassId}
    (hx : (p.owned roots).contains x = true) (hy : y ∈ p.ancestors x) :
    (p.owned roots).contains y = true := by
  obtain ⟨⟨r, hr, hmem⟩, hlt⟩ := (p.contains_owned_iff roots x).mp hx
  exact (p.contains_owned_iff roots y).mpr
    ⟨⟨r, hr, mem_ancestors_trans hmem hy⟩, Nat.lt_of_le_of_lt (index_le_of_mem_ancestors hy) hlt⟩

/-- `Program.owned` keeps a root alive that is a class of the program. -/
theorem contains_owned_of_root {roots : List ClassId} (hroot : x ∈ roots)
    (hlt : x.index < p.classes.size) : (p.owned roots).contains x = true :=
  (p.contains_owned_iff roots x).mpr ⟨⟨x, hroot, p.mem_ancestors_self x⟩, hlt⟩

end Program

end StackTrace
