import StackTrace.Program.Registry

/-!
# Which classes are alive

A class lives as long as something owns it: a root, or a subclass that lives.  Methods, and whatever
refers to a class by way of a method, own nothing.  So a class is alive if it is an ancestor of a
root.  `Program.owned` marks these classes, each once.
-/

namespace StackTrace

/-- A set of classes, as `marks` by `ClassId`. -/
structure ClassSet where
  marks : Array Bool

namespace ClassSet

/-- Whether a class is in the set.  No class past the `marks` is. -/
def contains (s : ClassSet) (id : ClassId) : Bool := s.marks.getD id.index false

end ClassSet

namespace Program

/-- Adds a class and its `ancestors` to a set that holds the ancestors of each of its members. -/
def own (p : Program) (s : ClassSet) (id : ClassId) : ClassSet :=
  if s.contains id then s
  else
    let s : ClassSet := ⟨s.marks.setIfInBounds id.index true⟩
    match (p.get? id).bind (·.super) with
    | none => s
    | some sup => if sup.index < id.index then p.own s sup else s
termination_by id.index

/-- The classes that `roots` keep alive. -/
def owned (p : Program) (roots : List ClassId) : ClassSet :=
  roots.foldl p.own ⟨Array.replicate p.classes.size false⟩

/-- The class that declares a method, while it is `alive`. -/
def holder (p : Program) (alive : ClassId → Bool) (m : Method) : Option Class :=
  if alive m.holder then p.get? m.holder else none

/-- `Class.method`, with a placeholder for a class that is gone. -/
def externalName (p : Program) (alive : ClassId → Bool) (m : Method) : String :=
  match p.holder alive m with
  | some c => c.externalName ++ "." ++ m.name.text
  | none => "<unloaded>." ++ m.name.text

end Program

end StackTrace
