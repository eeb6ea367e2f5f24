import StackTrace.DebugInfo.Code

/-!
# Threads and their stacks

A thread's stack holds the physical activations, from the bottom up.
-/

namespace StackTrace

/-- One physical activation. -/
inductive Frame where
  /-- Native code has called into managed code. -/
  | entry
  | interpreted (method : Method) (bci : Int)
  /-- Compiled code, stopped at code offset `pc`; it may stand for several inlined methods. -/
  | compiled (code : CompiledCode) (pc : Nat)
  /-- A piece of the runtime itself. -/
  | stub (name : String)

/-- Whether a frame runs managed code. -/
def Frame.isManaged : Frame → Bool
  | .interpreted .. | .compiled .. => true
  | .entry | .stub _ => false

/-- A thread. -/
structure ManagedThread where
  name : String
  /-- The stack, topmost frame first. -/
  stack : List Frame

namespace ManagedThread

/-- A thread that has not run anything. -/
def named (name : String) : ManagedThread := ⟨name, []⟩

/-- The number of frames on the `stack`. -/
def depth (t : ManagedThread) : Nat := t.stack.length

/-- Whether any frame on the stack is one that `isManaged`. -/
def hasManagedFrame (t : ManagedThread) : Bool := t.stack.any Frame.isManaged

/-- Calls into a frame. -/
def push (t : ManagedThread) (f : Frame) : ManagedThread := { t with stack := f :: t.stack }

/-- Returns from the topmost frame. -/
def pop (t : ManagedThread) : Option Frame × ManagedThread :=
  match t.stack with
  | [] => (none, t)
  | f :: rest => (some f, { t with stack := rest })

end ManagedThread

end StackTrace
