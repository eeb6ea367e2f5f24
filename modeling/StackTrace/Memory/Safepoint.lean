/-!
# No-safepoint scopes

While a thread inspects frames that a collection could move, it must not allocate.  It says so by
opening a verifier: as long as some verifier is open and not paused, reaching a safepoint breaks the
promise.  The thread itself only counts its unpaused verifiers.
-/

namespace StackTrace

/-- How many unpaused verifiers a thread has open. -/
structure Safepoints where
  depth : Nat
  deriving DecidableEq, Repr

/-- An open no-safepoint scope. -/
structure Verifier where
  /-- False while the scope is paused. -/
  active : Bool
  deriving DecidableEq, Repr

namespace Safepoints

/-- No scope is open. -/
def idle : Safepoints := ⟨0⟩

/-- Whether the thread may reach a safepoint now: its `depth` is 0. -/
def allowed (s : Safepoints) : Bool := s.depth == 0

/-- Opens a scope, which adds one to the `depth`. -/
def openScope (s : Safepoints) : Verifier × Safepoints := (⟨true⟩, ⟨s.depth + 1⟩)

/-- Lifts a scope for a while, with a `Verifier` that is not `active`. -/
def pause (s : Safepoints) (_ : Verifier) : Verifier × Safepoints := (⟨false⟩, ⟨s.depth - 1⟩)

/-- Puts a lifted scope back into force after `pause`. -/
def resume (s : Safepoints) (_ : Verifier) : Verifier × Safepoints := (⟨true⟩, ⟨s.depth + 1⟩)

/-- Ends a scope; a paused one no longer counts towards the `depth`. -/
def close (s : Safepoints) (v : Verifier) : Safepoints :=
  if v.active then ⟨s.depth - 1⟩ else s

/-- `Safepoints.allowed` says that no scope is counted. -/
@[simp] theorem allowed_iff (s : Safepoints) : s.allowed = true ↔ s.depth = 0 := by
  simp [allowed]

/-- `Safepoints.allowed` fails while a scope is counted. -/
theorem allowed_eq_false_iff (s : Safepoints) : s.allowed = false ↔ 0 < s.depth := by
  rw [allowed, beq_eq_false_iff_ne, Nat.pos_iff_ne_zero]

/-- `Safepoints.close` undoes `Safepoints.openScope`. -/
@[simp] theorem close_openScope (s : Safepoints) : s.openScope.2.close s.openScope.1 = s := rfl

/-- `Safepoints.resume` undoes `Safepoints.pause` of an open scope. -/
theorem resume_pause (s : Safepoints) (v w : Verifier) (isOpen : 0 < s.depth) :
    ((s.pause v).2.resume w).2 = s := by
  cases s
  simp only [pause, resume, mk.injEq]
  exact Nat.sub_add_cancel isOpen

end Safepoints

end StackTrace
