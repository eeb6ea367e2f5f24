import StackTrace.Proofs.Store.Charges
import StackTrace.Proofs.Store.History

/-!
# The scope of a builder

A builder has one no-safepoint scope open from its beginning to its end.  While it asks for memory its
own scope is paused, but no other is.  So an operation that has to allocate breaks the promise if the
thread has a further scope open, before it has done anything; an operation that need not allocate does
not look at the scopes at all.  In every case the scopes are afterwards as they were.

## Key results

- `Memory.paused_of_nested`: a pause of one scope does not lift the others
- `BuildStep.kept_of_alone`, `BuildStep.kept_of_idle`, `BuildStep.perform_of_nested`: a step of a
  builder that has the only scope, one that need not allocate, and one inside a further scope
- `Builder.scopes_start`, `Builder.start_of_nested`: what beginning a store does to the scopes
-/

namespace StackTrace

/-- The promise of a no-safepoint scope was broken: the call stopped with
    `Violation.safepointInScope`. -/
def BrokeScope {ε α : Type} (r : Except (Failure ε) α) : Prop :=
  r = .error (.violation .safepointInScope)

section BrokeScope

variable {ε α : Type}

/-- `BrokeScope` does not hold of an outcome that is no failure. -/
theorem not_brokeScope_ok (a : α) : ¬BrokeScope (.ok a : Except (Failure ε) α) := nofun

/-- `BrokeScope` does not hold of a failure that is no violation. -/
theorem not_brokeScope_error (e : ε) : ¬BrokeScope (.error (.error e) : Except (Failure ε) α) := nofun

/-- What `Except.map` makes of a value does not matter for `BrokeScope`. -/
theorem brokeScope_map {β : Type} {f : α → β} {r : Except (Failure ε) α} :
    BrokeScope (r.map f) ↔ BrokeScope r := by
  cases r with
  | ok a => exact iff_of_false (not_brokeScope_ok _) (not_brokeScope_ok a)
  | error e =>
    show Except.error e = Except.error _ ↔ Except.error e = Except.error _
    rw [Except.error.injEq, Except.error.injEq]

end BrokeScope

/-! ## Asking for memory inside a scope -/

/-- Inside a no-safepoint scope `action` does nothing but break the promise. -/
def Memory.NeedsSafepoint {ε α : Type} (action : Memory → Except (Failure ε) α × Memory) : Prop :=
  ∀ m : Memory, m.safepoints.allowed = false → action m = (.error (.violation .safepointInScope), m)

/-- `Memory.allocate` breaks the promise inside of a scope. -/
private theorem Memory.needsSafepoint_allocate (payload : Nat) : NeedsSafepoint (·.allocate payload) := by
  intro m hinside
  simp only [allocate, hinside, Bool.false_eq_true, if_false]

/-- `Memory.box` breaks the promise inside of a scope. -/
theorem Memory.needsSafepoint_box (value : Bool) : NeedsSafepoint (·.box value) := by
  intro m hinside
  simp only [box, needsSafepoint_allocate 1 m hinside]

/-- `Chunk.allocate` breaks the promise inside of a scope. -/
theorem Chunk.needsSafepoint_allocate (capacity : Nat) :
    Memory.NeedsSafepoint (Chunk.allocate capacity) := by
  intro m hinside
  simp only [allocate, Memory.needsSafepoint_allocate _ m hinside]

/-- `Store.allocate` breaks the promise inside of a scope. -/
private theorem Store.needsSafepoint_allocate {chunkSize : Nat} (hpos : 0 < chunkSize) :
    Memory.NeedsSafepoint (Store.allocate chunkSize) := by
  intro m hinside
  have hne : chunkSize ≠ 0 := by omega
  simp only [allocate, hne, if_false, Chunk.needsSafepoint_allocate _ m hinside]

namespace Memory

variable {ε α : Type} {action : Memory → Except (Failure ε) α × Memory} {m : Memory}

/-- `Memory.paused` lifts one scope; inside two an action still breaks the promise. -/
theorem paused_of_nested (haction : NeedsSafepoint action) (hdepth : 1 < m.safepoints.depth)
    (v : Verifier) : m.paused v action = (.error (.violation .safepointInScope), m) := by
  have hinside : (m.safepoints.pause v).2.allowed = false :=
    (Safepoints.allowed_eq_false_iff _).mpr (Nat.sub_pos_of_lt hdepth)
  have hrearmed := Safepoints.resume_pause m.safepoints v (m.safepoints.pause v).1 (by omega)
  simp only [paused, haction { m with safepoints := (m.safepoints.pause v).2 } hinside, hrearmed]

/-- An action that asks for one object in `Memory.paused`, while there is no other scope, gets it or is
    refused; the scope is open again afterwards. -/
theorem Asks.paused_alone {α : Type} {action : Memory → Except (Failure OutOfMemory) α × Memory}
    {result : α} {bytes : Nat} (hasks : Asks action result bytes)
    (hdepth : m.safepoints.depth = 1) (v : Verifier) :
    (∃ m', m.paused v action = (.ok result, m') ∧ m'.safepoints = m.safepoints) ∨
      ∃ e, m.paused v action = (.error (.error e), m) := by
  have hpaused := hasks.paused hdepth v
  split at hpaused
  · exact .inl ⟨_, hpaused, rfl⟩
  · exact .inr ⟨_, hpaused⟩

end Memory

namespace Builder

variable {b : Builder} {m : Memory}

/-! ## Which operations allocate -/

/-- `Builder.expand` takes a new chunk: no used one is left behind the current one. -/
def NeedsChunk (b : Builder) : Prop := b.reuse = true → b.store.chunks.size ≤ b.current + 1

/-- `Builder.expand` where it has to allocate a chunk. -/
theorem expand_of_needsChunk (hneeds : b.NeedsChunk) (m : Memory) :
    b.expand m =
      match m.paused b.verifier (Chunk.allocate b.store.chunkSize) with
      | (.error e, m) => (.error (e.mapError .outOfMemory), b, m)
      | (.ok chunk, m) => (.ok (), (b.addChunk chunk).advance b.store.chunks.size, m) := by
  have hnew : (b.reuse && decide (b.current + 1 < b.store.chunks.size)) = false := by
    cases hreuse : b.reuse with
    | false => rfl
    | true =>
      have hlast := hneeds hreuse
      simp only [Bool.true_and, decide_eq_false_iff_not]
      omega
  unfold expand
  exact if_neg (Bool.eq_false_iff.mp hnew)

/-- `Builder.expand` where a chunk is left. -/
theorem expand_of_not_needsChunk (hspare : ¬b.NeedsChunk) (m : Memory) :
    b.expand m = (.ok (), b.advance (b.current + 1), m) := by
  obtain ⟨hreuse, hlt⟩ := Classical.not_imp.mp hspare
  have hused : (b.reuse && decide (b.current + 1 < b.store.chunks.size)) = true := by
    simp only [hreuse, Bool.true_and, decide_eq_true_eq]
    omega
  simp only [expand, hused, if_true]

/-- What an operation on a builder leaves of the scopes, unless it is `BrokeScope`. -/
structure Kept (b : Builder) (m : Memory) (r : Except (Failure TraceError) Unit × Builder × Memory) :
    Prop where
  safepoints_eq : r.2.2.safepoints = m.safepoints
  verifier_eq : r.2.1.verifier = b.verifier
  unbroken : ¬BrokeScope r.1

/-- An operation that does not look at memory is `Builder.Kept`. -/
theorem Kept.of_untouched {r : Except (Failure TraceError) Unit} {b' : Builder}
    (hverifier : b'.verifier = b.verifier) (hr : ¬BrokeScope r) : b.Kept m (r, b', m) :=
  ⟨rfl, hverifier, hr⟩

/-- `Builder.Kept` for one operation and then another. -/
theorem Kept.trans {b' : Builder} {m' : Memory} {r r' : Except (Failure TraceError) Unit}
    {x : Builder × Memory} (h : b.Kept m (r, b', m')) (h' : b'.Kept m' (r', x)) :
    b.Kept m (r', x) where
  safepoints_eq := h'.safepoints_eq.trans h.safepoints_eq
  verifier_eq := h'.verifier_eq.trans h.verifier_eq
  unbroken := h'.unbroken

/-! ## Steps -/

/-- `Builder.expand` keeps the scopes if that of the builder is the only one. -/
private theorem kept_expand (hdepth : m.safepoints.depth = 1) : b.Kept m (b.expand m) := by
  by_cases hneeds : b.NeedsChunk
  · rw [expand_of_needsChunk hneeds]
    rcases (Chunk.asks_allocate b.store.chunkSize).paused_alone hdepth b.verifier with
      ⟨m', hchunk, hscopes⟩ | ⟨e, hchunk⟩
    · rw [hchunk]
      exact ⟨hscopes, rfl, (not_brokeScope_ok _)⟩
    · rw [hchunk]
      exact .of_untouched rfl (not_brokeScope_error _)
  · rw [expand_of_not_needsChunk hneeds]
    exact .of_untouched rfl (not_brokeScope_ok _)

/-- `Builder.push` keeps the scopes if moving on does, where it has to move on. -/
private theorem kept_push_of_expand (holder : Class) (method : Method) {bci : Int}
    (hexpand : Location.fits bci = true → b.store.chunkSize ≤ b.slot → b.Kept m (b.expand m)) :
    b.Kept m (b.push m holder method bci) := by
  cases hfits : Location.fits bci with
  | false =>
    rw [push_of_not_fits hfits]
    exact .of_untouched rfl (not_brokeScope_error _)
  | true =>
    obtain ⟨f, -, hpush⟩ := push_of_fits hfits holder method
    rw [hpush]
    split
    · exact .of_untouched rfl (not_brokeScope_ok _)
    -- The chunk is full, so it is up to moving on
    · rename_i hslot
      have hmoved := hexpand hfits (Nat.le_of_not_lt hslot)
      split
      · rename_i heq
        rw [heq] at hmoved
        exact hmoved
      · rename_i b' m' heq
        rw [heq] at hmoved
        exact hmoved.trans (.of_untouched rfl (not_brokeScope_ok _))

/-- `Builder.push` keeps the scopes if that of the builder is the only one. -/
theorem kept_push (hdepth : m.safepoints.depth = 1) (holder : Class) (method : Method) (bci : Int) :
    b.Kept m (b.push m holder method bci) :=
  kept_push_of_expand holder method fun _ _ => kept_expand hdepth

/-- `Builder.markHiddenTop` keeps the scopes if that of the builder is the only one. -/
theorem kept_markHiddenTop (hdepth : m.safepoints.depth = 1) : b.Kept m (b.markHiddenTop m) := by
  unfold markHiddenTop
  split
  · exact .of_untouched rfl (not_brokeScope_ok _)
  · rcases (Memory.asks_box true).paused_alone hdepth b.verifier with
      ⟨m', hbox, hscopes⟩ | ⟨e, hbox⟩
    · rw [hbox]
      exact ⟨hscopes, rfl, (not_brokeScope_ok _)⟩
    · rw [hbox]
      exact .of_untouched rfl (not_brokeScope_error _)

end Builder

namespace BuildStep

variable {b : Builder} {m : Memory}

/-- Whether `BuildStep.perform` has to allocate. -/
def Allocates (b : Builder) : BuildStep → Prop
  | push _ _ bci => Location.fits bci = true ∧ b.store.chunkSize ≤ b.slot ∧ b.NeedsChunk
  | expand => b.NeedsChunk
  | markHiddenTop => b.store.hasHiddenTop = false

/-- If the scope of the builder is the only one, no `BuildStep.perform` breaks the promise. -/
theorem kept_of_alone (hdepth : m.safepoints.depth = 1) (step : BuildStep) :
    b.Kept m (step.perform b m) := by
  cases step with
  | push holder method bci => exact Builder.kept_push hdepth holder method bci
  | expand => exact Builder.kept_expand hdepth
  | markHiddenTop => exact Builder.kept_markHiddenTop hdepth

/-- A `BuildStep.perform` that need not allocate does not look at the scopes. -/
theorem kept_of_idle {step : BuildStep} (hidle : ¬step.Allocates b) (m : Memory) :
    b.Kept m (step.perform b m) := by
  cases step with
  | push holder method bci =>
    refine Builder.kept_push_of_expand holder method fun hfits hfull => ?_
    have hspare : ¬b.NeedsChunk := fun hneeds => hidle ⟨hfits, hfull, hneeds⟩
    rw [Builder.expand_of_not_needsChunk hspare]
    exact .of_untouched rfl (not_brokeScope_ok _)
  | expand =>
    simp only [perform, Builder.expand_of_not_needsChunk hidle]
    exact .of_untouched rfl (not_brokeScope_ok _)
  | markHiddenTop =>
    have hmarked : b.store.hasHiddenTop = true := Bool.not_eq_false _ ▸ hidle
    simp only [perform, Builder.markHiddenTop, hmarked, if_true]
    exact .of_untouched rfl (not_brokeScope_ok _)

/-- Inside a further scope, a `BuildStep.perform` that has to allocate breaks the promise and does
    nothing else. -/
theorem perform_of_nested (hdepth : 1 < m.safepoints.depth) {step : BuildStep}
    (hallocates : step.Allocates b) :
    step.perform b m = (.error (.violation .safepointInScope), b, m) := by
  have hchunk := Memory.paused_of_nested (Chunk.needsSafepoint_allocate b.store.chunkSize) hdepth
    b.verifier
  -- Each step allocates by way of a pause, which is of no use in here
  cases step with
  | push holder method bci =>
    obtain ⟨hfits, hfull, hneeds⟩ := hallocates
    obtain ⟨f, -, hpush⟩ := Builder.push_of_fits hfits holder method
    simp only [perform, hpush, Nat.not_lt.mpr hfull, if_false, Builder.expand_of_needsChunk hneeds,
      hchunk, Failure.mapError]
  | expand =>
    simp only [perform, Builder.expand_of_needsChunk hallocates, hchunk, Failure.mapError]
  | markHiddenTop =>
    have hunmarked : b.store.hasHiddenTop = false := hallocates
    simp only [perform, Builder.markHiddenTop, hunmarked, Bool.false_eq_true, if_false,
      Memory.paused_of_nested (Memory.needsSafepoint_box true) hdepth b.verifier, Failure.mapError]

/-- Whatever `BuildStep.perform` does, the scopes are as before, and the builder goes on with its
    own. -/
theorem scopes_perform (hopen : 0 < m.safepoints.depth) (step : BuildStep) (b : Builder) :
    (step.perform b m).2.2.safepoints = m.safepoints ∧
      (step.perform b m).2.1.verifier = b.verifier := by
  by_cases hallocates : step.Allocates b
  · by_cases halone : m.safepoints.depth = 1
    · have hkept := step.kept_of_alone (b := b) halone
      exact ⟨hkept.safepoints_eq, hkept.verifier_eq⟩
    · rw [perform_of_nested (by omega) hallocates]
      exact ⟨rfl, rfl⟩
  · have hkept := kept_of_idle hallocates m
    exact ⟨hkept.safepoints_eq, hkept.verifier_eq⟩

end BuildStep

/-! ## Beginning and end -/

namespace Builder

variable {m : Memory}

/-- `Builder.start` refuses chunks without slots before anything else. -/
theorem start_zero (m : Memory) : start 0 m = (.error (.violation .emptyChunk), m) := by
  cases m
  simp only [start, Memory.paused, Safepoints.openScope, Safepoints.pause, Safepoints.resume,
    Safepoints.close, Store.allocate, if_true, Failure.mapError, Nat.add_sub_cancel]

/-- `Builder.start` inside of a scope breaks the promise and does nothing else. -/
theorem start_of_nested {chunkSize : Nat} (hpos : 0 < chunkSize) (hdepth : 0 < m.safepoints.depth) :
    start chunkSize m = (.error (.violation .safepointInScope), m) := by
  have hopened : 1 < { m with safepoints := m.safepoints.openScope.2 : Memory }.safepoints.depth := by
    simp only [Safepoints.openScope]
    omega
  simp only [start, Memory.paused_of_nested (Store.needsSafepoint_allocate hpos) hopened,
    Failure.mapError, Safepoints.close_openScope]

/-- `Builder.start` opens one scope, or leaves the scopes as they were. -/
theorem scopes_start (chunkSize : Nat) (m : Memory) :
    (∃ b m', start chunkSize m = (.ok b, m') ∧ b.verifier.active = true ∧
      m'.safepoints.depth = m.safepoints.depth + 1) ∨
    ∃ e m', start chunkSize m = (.error e, m') ∧ m'.safepoints = m.safepoints ∧
      (m.safepoints.depth = 0 → e ≠ .violation .safepointInScope) := by
  rcases Nat.eq_zero_or_pos chunkSize with rfl | hpos
  · exact .inr ⟨_, m, start_zero m, rfl, nofun⟩
  · by_cases hallowed : m.safepoints.allowed = true
    · have hstart := start_eq hpos hallowed
      split at hstart
      · exact .inl ⟨_, _, hstart, rfl, rfl⟩
      · exact .inr ⟨_, m, hstart, rfl, nofun⟩
    · have hdepth : m.safepoints.depth ≠ 0 := fun hzero => hallowed (by simp [hzero])
      exact .inr ⟨_, m, start_of_nested hpos (by omega), rfl, fun hzero => absurd hzero hdepth⟩

/-- `Builder.finish` and `Builder.abandon` both close the scope of the builder. -/
theorem scopes_close {b : Builder} (hactive : b.verifier.active = true) (m : Memory) :
    (b.finish m).2.safepoints.depth = m.safepoints.depth - 1 ∧
      (b.abandon m).safepoints.depth = m.safepoints.depth - 1 := by
  constructor
  · rw [snd_finish]
    simp only [Safepoints.close, hactive, if_true]
  · simp only [abandon, Memory.releaseAll, Safepoints.close, hactive, if_true]

end Builder

end StackTrace
