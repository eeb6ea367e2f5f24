import StackTrace.Program.Liveness

/-!
# Classes that are alive

## Key results

- `Program.isSome_get?_of_owned`: a class that is kept alive can be found
-/

namespace StackTrace

namespace Program

/-- `Program.own` adds no class when it marks classes as alive. -/
theorem size_marks_own (p : Program) (s : ClassSet) (id : ClassId) :
    (p.own s id).marks.size = s.marks.size := by
  fun_induction p.own s id with
  | case1 => rfl
  | case2 => exact Array.size_setIfInBounds
  | case3 s id _ _ _ _ _ ih => exact ih.trans Array.size_setIfInBounds
  | case4 => exact Array.size_setIfInBounds

/-- `Program.owned` has one mark for each class of the program. -/
private theorem size_marks_owned (p : Program) (roots : List ClassId) :
    (p.owned roots).marks.size = p.classes.size := by
  have hfoldl : ∀ s : ClassSet, (roots.foldl p.own s).marks.size = s.marks.size := by
    induction roots with
    | nil => exact fun s => rfl
    | cons id roots ih => exact fun s => (ih (p.own s id)).trans (p.size_marks_own s id)
  exact (hfoldl _).trans Array.size_replicate

/-- `Program.get?` finds a class that is kept alive. -/
theorem isSome_get?_of_owned {p : Program} {roots : List ClassId} {id : ClassId}
    (h : (p.owned roots).contains id = true) : (p.get? id).isSome = true := by
  have hlt : id.index < p.classes.size := by
    rw [← p.size_marks_owned roots]
    refine Nat.lt_of_not_le fun hle => ?_
    rw [ClassSet.contains, Array.getD_eq_getD_getElem?, Array.getElem?_eq_none hle] at h
    exact nomatch h
  rw [get?, Array.getElem?_eq_getElem hlt]
  rfl

end Program

end StackTrace
