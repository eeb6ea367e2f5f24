import StackTrace.Stack.Walk

/-!
# A walk under way

A walker goes down a stack and stops at each activation whose class is alive.  Where compiled code
stands for several activations it keeps the offset of the next scope record, and goes on with the frames
below only when the chain of scopes is at its end.  The entry at the bottom of a stack ends the walk,
and so does debug info that cannot be read.

`Walker.turn` is one turn of the walker's loop, `Walker.next` goes on to the next activation or error,
and `Walker.collect` takes all there are.  The loop has no bound of its own: on records that name each
other as callers it does not end.  So the number of turns is bounded from outside, and `none` says that
they were not enough.  `Walker.turnsFor` are enough where every caller is recorded before what it calls.
-/

namespace StackTrace

/-- The turns for a frame: one for itself, and in compiled code one for each byte of scope records. -/
def Frame.turns : Frame → Nat
  | .compiled code _ => code.scopes.size + 1
  | _ => 1

/-- A walk under way. -/
structure Walker where
  /-- The frames still to be visited, topmost first. -/
  remaining : List Frame
  /-- The code being expanded, and the offset of its next scope record. -/
  pending : Option (CompiledCode × Nat)
  /-- Whether the walk has come to its end, but for the code being expanded. -/
  done : Bool

/-- What one `turn` of a walker's loop comes to. -/
inductive Turn where
  /-- There is nothing to stop at. -/
  | onward
  | found (a : Activation)
  | failed (e : DebugInfo.Error)
  | ended

/-- Stops at an activation, unless its class is no longer `alive`. -/
def Turn.visit (alive : ClassId → Bool) (a : Activation) : Turn :=
  if alive a.method.holder then .found a else .onward

namespace Walker

/-- A walk that has all of a stack before it, topmost frame first. -/
def ofStack (stack : List Frame) : Walker := ⟨stack, none, false⟩

/-- The next scope of the code being expanded, by `scopeAt`.  After that of the physical method there is
    none. -/
def expand (alive : ClassId → Bool) (w : Walker) (code : CompiledCode) (offset : Nat) :
    Turn × Walker :=
  match code.scopeAt offset with
  | .error e => (.failed e, { w with pending := none })
  | .ok s =>
    let pending := if s.isPhysical then none else some (code, s.sender)
    (.visit alive s.activation, { w with pending })

/-- The next frame, with the walker that has it behind itself. -/
def visit (alive : ClassId → Bool) (w : Walker) : Frame → Turn × Walker
  | .entry => if w.remaining.isEmpty then (.ended, { w with done := true }) else (.onward, w)
  | .stub _ => (.onward, w)
  | .interpreted method bci => (.visit alive ⟨method, bci, .interpreted⟩, w)
  | .compiled code pc =>
    if code.nativeWrapper then (.visit alive ⟨code.method, 0, .nativeEntry⟩, w)
    else
      match code.pcDescAt pc with
      | none => (.failed (.missingPcDesc pc), w)
      | some desc => (.onward, { w with pending := some (code, desc.scopeOffset) })

/-- One turn of the loop: a scope of the code being expanded by `expand`, or else a frame by `visit`. -/
def turn (alive : ClassId → Bool) (w : Walker) : Turn × Walker :=
  match w.pending with
  | some (code, offset) => w.expand alive code offset
  | none =>
    if w.done then (.ended, w)
    else
      match w.remaining with
      | [] => (.ended, { w with done := true })
      | f :: rest => { w with remaining := rest }.visit alive f

/-- Turns until there is something to stop at, at most `turns` times in vain. -/
def step (alive : ClassId → Bool) (turns : Nat) (w : Walker) :
    Option (Except DebugInfo.Error (Option Activation) × Walker) :=
  match w.turn alive with
  | (.onward, w) =>
    match turns with
    | 0 => none
    | turns + 1 => step alive turns w
  | (.found a, w) => some (.ok (some a), w)
  | (.failed e, w) => some (.error e, w)
  | (.ended, w) => some (.ok none, w)

/-- The next activation or error that `step` comes to, if there is one.  An error ends the walk. -/
def next (alive : ClassId → Bool) (turns : Nat) (w : Walker) :
    Option (Option (Except DebugInfo.Error Activation) × Walker) :=
  if w.done && w.pending.isNone then some (none, w)
  else
    match w.step alive turns with
    | none => none
    | some (.ok found, w) => some (found.map .ok, w)
    | some (.error e, w) => some (some (.error e), { w with pending := none, done := true })

/-- All activations and errors to come, at most `turns` of them, and the walker that has them behind
    itself. -/
def collect (alive : ClassId → Bool) (turns : Nat) (w : Walker) :
    Option (List (Except DebugInfo.Error Activation) × Walker) :=
  match w.next alive turns with
  | none => none
  | some (none, w) => some ([], w)
  | some (some item, w) =>
    match turns with
    | 0 => none
    | turns + 1 => (collect alive turns w).map fun (items, w) => (item :: items, w)

/-- As many turns as there are frames and bytes of scope records: the `Frame.turns` of all frames. -/
def turnsFor : List Frame → Nat
  | [] => 0
  | f :: rest => turnsFor rest + f.turns

end Walker

/-- The `Walk` that activations and errors amount to, as `Walker.next` gives them one after the
    other. -/
def Walk.ofItems (items : List (Except DebugInfo.Error Activation)) : Walk where
  activations := items.filterMap Except.toOption
  error := items.findSome? fun
    | .error e => some e
    | .ok _ => none

end StackTrace
