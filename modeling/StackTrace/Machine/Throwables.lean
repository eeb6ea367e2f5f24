import StackTrace.Machine.Basic

/-!
# Throwables of a machine

Requests that raise conditions, link causes, and capture and release traces.
-/

namespace StackTrace.Machine

/-- Raises a condition and keeps it under a name with `putThrowable`.  A cause is taken out of its
    table. -/
def raise (m : Machine) (name : String) (cls : ClassRef) (message : Option String)
    (cause : Option String) : Except RequestError Throwable × Machine :=
  match m.resolveClass cls with
  | .error e => (.error e, m)
  | .ok c =>
    let t := Throwable.new c.id message
    match cause with
    | none => (.ok t, m.putThrowable name t)
    | some cause =>
      match m.takeThrowable cause with
      | (none, m) => (.error (.noThrowable cause), m)
      | (some inner, m) =>
        let t := t.withCause inner
        (.ok t, m.putThrowable name t)

/-- Gives a throwable a cause in place of the one it had.  The cause is taken out with `takeThrowable`,
    and lost if there is no such throwable; so a throwable cannot be its own cause. -/
def setCause (m : Machine) (name cause : String) : Except RequestError Unit × Machine :=
  match m.takeThrowable cause with
  | (none, m) => (.error (.noCause cause), m)
  | (some inner, m) =>
    match m.throwables.get? name with
    | none => (.error (.noThrowable name), m.releaseThrowable inner)
    | some t =>
      let m := m.setMemory
        (m.world.memory.releaseAll (t.causes.flatMap Condition.reservations))
      (.ok (), { m with throwables := m.throwables.insert name (t.withCause inner) })

/-- Replaces the message of a throwable. -/
def setMessage (m : Machine) (name : String) (message : Option String) :
    Except RequestError Throwable × Machine :=
  match m.throwables.get? name with
  | none => (.error (.noThrowable name), m)
  | some t =>
    let t := t.modifyHead ({ · with message })
    (.ok t, { m with throwables := m.throwables.insert name t })

/-- What became of a request to capture a trace: the depth it reports as `result`, and the throwable
    after it. -/
structure CaptureReport where
  result : Except (Failure TraceError) Nat
  throwable : Throwable

/-- Carries out `action` on the throwable of a name, which is not in its table meanwhile. -/
def withThrowable (m : Machine) (name : String)
    (action : Universe → List ClassId → Throwable →
      Except (Failure TraceError) Nat × Throwable × Universe) :
    Except RequestError CaptureReport × Machine :=
  match m.takeThrowable name with
  | (none, m) => (.error (.noThrowable name), m)
  | (some t, m) =>
    let others := m.owners
    let ⟨u, threads, throwables, code, methods, pins, holdings⟩ := m
    let (result, t, u) := action u others t
    (.ok ⟨result, t⟩,
      ⟨u, threads, throwables.insert name t, code, methods, pins, holdings⟩)

/-- Carries out `action` on the throwable of a name and the thread of a name.  A thread that was not
    named before is made, but only for a throwable that there is. -/
def withThread (m : Machine) (name thread : String)
    (action : ManagedThread → Universe → List ClassId → Throwable →
      Except (Failure TraceError) Nat × Throwable × Universe) :
    Except RequestError CaptureReport × Machine :=
  let m := if m.throwables.contains name then m.ensureThread thread else m
  m.withThrowable name (action (m.threadOf thread))

/-- Captures the stack of a thread into a throwable with `Universe.fillInStackTrace`. -/
def fill (m : Machine) (name thread : String) (method : Option MethodRef) :
    Except RequestError CaptureReport × Machine :=
  match method.mapM m.resolveMethod with
  | .error e => (.error e, m)
  | .ok method =>
    m.withThread name thread fun stack u others t => u.fillInStackTrace others t stack method

/-- Fills the store of a throwable again from the stack of a thread, with
    `Universe.refillStackTrace`. -/
def refill (m : Machine) (name thread : String) : Except RequestError CaptureReport × Machine :=
  m.withThread name thread fun stack u others t => u.refillStackTrace others t stack

/-- Shows the trace of a throwable with `fillElements` in a new buffer, which is set aside before the
    throwable is looked up. -/
def showElements (m : Machine) (name : String) (length : Nat) :
    Except RequestError (Except TraceError Unit × List StackTraceElement) :=
  match Throwable.newElements length with
  | .error v => .error (.violation v)
  | .ok buffer => (m.resolveThrowable name).map fun t => t.fillElements m.program buffer

/-- Gives a throwable an empty store with `Universe.allocateTrace`. -/
def allocateTrace (m : Machine) (name : String) : Except RequestError CaptureReport × Machine :=
  m.withThrowable name fun u _ t =>
    let (result, t, u) := u.allocateTrace t
    (result.map fun _ => 0, t, u)

/-- What an out-of-memory error looked like when it was handed out: the error, the number of prepared
    ones left, and the heap counts. -/
structure OutOfMemoryReport where
  throwable : Throwable
  available : Nat
  heap : Nat × Nat

/-- Hands out an error with `Universe.outOfMemoryError` and then keeps it under a name. -/
def outOfMemory (m : Machine) (name thread : String) (message : Option String) :
    OutOfMemoryReport × Machine :=
  let m := m.ensureThread thread
  let (t, u) := m.world.outOfMemoryError m.owners (m.threadOf thread) message
  let m := { m with world := u }
  (⟨t, u.pool.length, m.heapCounts⟩, m.putThrowable name t)

/-- Reserves memory under a name with `Holdings.reserve`. -/
def reserve (m : Machine) (name : String) (payload : Nat) : Except RequestError Nat × Machine :=
  match m.holdings.reserve m.world.memory name payload with
  | (.error e, holdings, memory) =>
    (.error (.ofFailure .outOfMemory e), { m with holdings }.setMemory memory)
  | (.ok n, holdings, memory) => (.ok n, { m with holdings }.setMemory memory)

/-- Boxes a boolean under a name with `Holdings.box`. -/
def box (m : Machine) (name : String) (value : Bool) : Except RequestError Bool × Machine :=
  match m.holdings.box m.world.memory name value with
  | (.error e, holdings, memory) =>
    (.error (.ofFailure .outOfMemory e), { m with holdings }.setMemory memory)
  | (.ok b, holdings, memory) => (.ok b, { m with holdings }.setMemory memory)

/-- Gives back what is held under a name with `Holdings.free`; reports whether there was anything. -/
def free (m : Machine) (name : String) : Bool × Machine :=
  let (freed, holdings, memory) := m.holdings.free m.world.memory name
  (freed, { m with holdings }.setMemory memory)

end StackTrace.Machine
