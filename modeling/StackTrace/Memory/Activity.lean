import StackTrace.Memory.Basic

/-!
# What a thread does around its scopes

An `Activity` is one thing a thread does that no-safepoint scopes are about: looking at its scope
count, reaching a safepoint, allocating, or doing more of that inside a scope or a pause of it.
`Activity.run` carries activities out and reports what each one saw.
-/

namespace StackTrace

/-- One thing that a thread does. -/
inductive Activity where
  /-- Reads the number of unpaused scopes. -/
  | depth
  /-- Reaches a safepoint. -/
  | verify
  /-- Allocates `payload` bytes and gives them back at once. -/
  | allocate (payload : Nat)
  /-- Acts inside a new scope. -/
  | scope (body : List Activity)
  /-- Acts while the directly enclosing scope is paused. -/
  | pause (body : List Activity)

/-- What came of one `Activity`. -/
inductive Activity.Report where
  | depth (count : Nat) (allowed : Bool)
  | safe
  | charged (bytes : Nat)
  | failed (e : Failure OutOfMemory)
  /-- The reports from inside the scope, whether it was active at its end, and the count after it. -/
  | scope (body : List Activity.Report) (active : Bool) (after : Nat)
  | pause (body : List Activity.Report) (after : Nat)
  /-- A pause that no scope directly encloses. -/
  | pauseOutsideScope

namespace Activity

mutual

/-- Carries out one activity; `enclosing` is the verifier of the scope directly around it. -/
def run (enclosing : Option Verifier) (m : Memory) : Activity → Report × Memory
  | .depth => (.depth m.safepoints.depth m.safepoints.allowed, m)
  | .verify =>
    (if m.safepoints.allowed then .safe else .failed (.violation .safepointInScope), m)
  | .allocate payload =>
    match m.allocate payload with
    | (.ok r, m) => (.charged r.bytes, m.release r)
    | (.error e, m) => (.failed e, m)
  | .scope body =>
    let (v, safepoints) := m.safepoints.openScope
    let (reports, m) := runAll (some v) { m with safepoints } body
    let safepoints := m.safepoints.close v
    (.scope reports v.active safepoints.depth, { m with safepoints })
  | .pause body =>
    match enclosing with
    | none => (.pauseOutsideScope, m)
    | some v =>
      let (v, safepoints) := m.safepoints.pause v
      let (reports, m) := runAll none { m with safepoints } body
      let (_, safepoints) := m.safepoints.resume v
      (.pause reports safepoints.depth, { m with safepoints })

/-- Carries out activities one after the other with `run`, the thread's state passed from each to the
    next. -/
def runAll (enclosing : Option Verifier) (m : Memory) : List Activity → List Report × Memory
  | [] => ([], m)
  | a :: rest =>
    let (report, m) := run enclosing m a
    let (reports, m) := runAll enclosing m rest
    (report :: reports, m)

end

end Activity

end StackTrace
