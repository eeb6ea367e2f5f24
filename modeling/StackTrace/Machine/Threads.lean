import StackTrace.Machine.Basic
import StackTrace.Stack.Walker

/-!
# Threads of a machine
-/

namespace StackTrace.Machine

/-- A `Frame` as a request describes it, with classes, methods and code by name. -/
inductive FrameRequest where
  | entry
  | stub (name : String)
  | interpreted (method : MethodRef) (bci : Int)
  | compiled (code : String) (pc : Nat)

/-- The frame that a request describes. -/
def resolveFrame (m : Machine) : FrameRequest → Except RequestError Frame
  | .entry => .ok .entry
  | .stub name => .ok (.stub name)
  | .interpreted method bci => (m.resolveMethod method).map (.interpreted · bci)
  | .compiled code pc => (m.resolveCode code).map (.compiled · pc)

/-- Pushes a frame a number of times with `ManagedThread.push`. -/
def pushTimes (t : ManagedThread) (f : Frame) : (times : Nat) → ManagedThread
  | 0 => t
  | times + 1 => pushTimes (t.push f) f times

/-- Pushes frames, the bottom one first, each a number of times.  If one of them is not one that
    `resolveFrame` finds, none is pushed. -/
def pushFrames (m : Machine) (thread : String) (frames : List (FrameRequest × Nat)) :
    Except RequestError ManagedThread × Machine :=
  match frames.mapM fun (f, times) => (m.resolveFrame f).map (·, times) with
  | .error e => (.error e, m)
  | .ok frames =>
    let t := frames.foldl (fun t (f, times) => pushTimes t f times) (m.threadOf thread)
    (.ok t, { m with threads := m.threads.insert thread t })

/-- Pops frames with `ManagedThread.pop`; reports each that there was, the top one first. -/
def popTimes (t : ManagedThread) : (times : Nat) → List (Option Frame) × ManagedThread
  | 0 => ([], t)
  | times + 1 =>
    let (f, t) := t.pop
    let (fs, t) := popTimes t times
    (f :: fs, t)

/-- Pops frames off a thread, as `popTimes` does, and keeps the thread. -/
def popFrames (m : Machine) (thread : String) (times : Nat) :
    List (Option Frame) × ManagedThread × Machine :=
  let (frames, t) := popTimes (m.threadOf thread) times
  (frames, t, { m with threads := m.threads.insert thread t })

/-- What a `Walker` on the stack of a thread visits, and the error that ends it.  All code of a machine
    is built from call sites, so `Walker.turnsFor` gives it turns enough. -/
def walkThread (m : Machine) (thread : String) :
    Except RequestError (List Activation × Option DebugInfo.Error) :=
  match m.threads.get? thread with
  | none => .error (.noThread thread)
  | some t =>
    let turns := Walker.turnsFor t.stack
    let items := ((Walker.ofStack t.stack).collect m.owned.contains turns).elim [] Prod.fst
    let walk := Walk.ofItems items
    .ok (walk.activations, walk.error)

end StackTrace.Machine
