import StackTrace.Proofs.Capture.Depth
import StackTrace.Proofs.Capture.Limits
import StackTrace.Proofs.Capture.Prepared
import StackTrace.Proofs.Store.Scopes

/-!
# The scopes of a capture

A capture opens one no-safepoint scope, that of its builder, and has closed it when it returns, however
it ends.  On a thread without other scopes it breaks no promise.  Inside a scope it breaks the promise
with its first chunk; filling a prepared error goes on there, since that allocates nothing.

## Key results

- `kept_recordAll`, `refillAll_untouched`: what the loops leave of the scopes
- `Universe.scopes_fillInStackTrace`, `Universe.scopes_refillStackTrace`,
  `Universe.scopes_allocateTrace`, `Universe.scopes_outOfMemoryError`: the scopes after a call
- `Universe.fillInStackTrace_of_nested`, `Universe.allocateTrace_of_nested`: a call inside a scope
-/

namespace StackTrace

/-! ## Loops -/

section Loops

variable {error : Option DebugInfo.Error} {b : Builder} {m : Memory}

/-- `Builder.Kept` composes: what is done for one activation, and then the rest with what that
    leaves. -/
private theorem Builder.Kept.andThen
    {next : Builder → Memory → Except (Failure TraceError) Unit × Builder × Memory}
    (hnext : ∀ (b' : Builder) (m' : Memory), m'.safepoints = m.safepoints → b'.Kept m' (next b' m'))
    {r : Except (Failure TraceError) Unit × Builder × Memory} :
    b.Kept m r → b.Kept m
      (match r with
      | (.error e, b, m) => (.error e, b, m)
      | (.ok (), b, m) => next b m) := by
  intro hr
  obtain ⟨_ | _, b', m'⟩ := r
  · exact hr
  · exact hr.trans (hnext b' m' hr.safepoints_eq)

/-- `recordAll` keeps `Builder.Kept` if the scope of the builder is the only one. -/
theorem kept_recordAll {p : FilterPolicy} {maxDepth : Nat} {f : FrameFilter} (as : List Activation)
    (hdepth : m.safepoints.depth = 1) : b.Kept m (recordAll p maxDepth error f b m as) := by
  -- Induction on what is left of the walk, with the filter and the builder as they then are
  induction as generalizing f b m with
  | nil =>
    unfold recordAll
    split
    · exact .of_untouched rfl (not_brokeScope_ok _)
    · cases error with
      | none => exact .of_untouched rfl (not_brokeScope_ok _)
      | some e => exact .of_untouched rfl (not_brokeScope_error _)
  | cons a as ih =>
    cases hmax : atMaxDepth maxDepth b with
    | true =>
      rw [recordAll_of_atMaxDepth hmax]
      exact .of_untouched rfl (not_brokeScope_ok _)
    | false =>
      have hrest : ∀ (f' : FrameFilter) (b' : Builder) (m' : Memory), m'.safepoints = m.safepoints →
          b'.Kept m' (recordAll p maxDepth error f' b' m' as) :=
        fun _ _ _ hm => ih ((congrArg Safepoints.depth hm).trans hdepth)
      rcases recordAll_cons hmax a as with ⟨-, heq⟩ | ⟨c, d, f', -, -, hcase⟩
      · rw [heq]
        exact ih hdepth
      -- A frame, a mark on the frame on top, or nothing is written, and then the rest of the walk
      · rcases hcase with ⟨-, heq⟩ | ⟨-, -, heq⟩ | ⟨-, -, heq⟩
        · rw [heq]
          exact .andThen (hrest f') (Builder.kept_push hdepth c a.method a.bci)
        · rw [heq]
          exact .andThen (hrest f') (Builder.kept_markHiddenTop hdepth)
        · rw [heq]
          exact ih hdepth

/-- While the first chunk has room, `refillAll` looks at no memory, so it breaks no promise. -/
theorem refillAll_untouched {p : Program} {outside : ClassSet} {limit : Nat} (as : List Activation)
    (hb : b.Sound) (hlimit : limit = b.store.chunkSize) (hroom : b.depth < limit)
    {r : Except (Failure TraceError) Unit × Builder × Memory}
    (h : refillAll p outside limit error b m as = r) : b.Kept m r ∧ r.2.2 = m := by
  subst h
  -- Induction on the activations; each frame that is written leaves the builder sound, with room for
  -- the next or done
  induction as generalizing b with
  | nil =>
    cases error with
    | none => exact ⟨.of_untouched rfl (not_brokeScope_ok _), rfl⟩
    | some e => exact ⟨.of_untouched rfl (not_brokeScope_error _), rfl⟩
  | cons a as ih =>
    unfold refillAll
    simp only
    split
    · exact ih hb hlimit hroom
    · rename_i holder _
      cases hfits : Location.fits a.bci with
      | false =>
        rw [Builder.push_of_not_fits hfits]
        exact ⟨.of_untouched rfl (not_brokeScope_error _), rfl⟩
      | true =>
        obtain ⟨f, -, -, hsound, hpush⟩ := hb.push_of_room (hlimit ▸ hroom) hfits holder a.method
        rw [hpush]
        simp only
        split
        · exact ⟨.of_untouched rfl (not_brokeScope_ok _), rfl⟩
        · rename_i hleft
          obtain ⟨hkept, hmemory⟩ := ih hsound hlimit (Nat.lt_of_not_le hleft)
          exact ⟨⟨hkept.safepoints_eq, hkept.verifier_eq, hkept.unbroken⟩, hmemory⟩

end Loops

namespace Universe

variable {u : Universe} {t : Throwable}

/-! ## Captures -/

section Capture

variable {alive : ClassId → Bool} {cls : ClassId} {thread : ManagedThread} {method : Option Method}

/-- `Universe.filling` keeps `Builder.Kept`, whichever of its ways a throwable is filled by. -/
private theorem kept_filling
    {fill : Builder → Memory → Except (Failure TraceError) Unit × Builder × Memory}
    (hfill : u.filling alive cls thread method = some fill) {b : Builder} {m : Memory}
    (hdepth : m.safepoints.depth = 1) : b.Kept m (fill b m) := by
  unfold filling at hfill
  split at hfill
  · cases hfill
    exact kept_recordAll _ hdepth
  · obtain ⟨⟨method, holder⟩, -, rfl⟩ := Option.map_eq_some_iff.mp hfill
    exact Builder.kept_push hdepth holder method 0

/-- `Universe.capture` closes the scope that it opens, however it ends, and breaks no promise if none
    was open before. -/
private theorem scopes_capture (u : Universe) (alive : ClassId → Bool) (cls : ClassId)
    (thread : ManagedThread) (method : Option Method) :
    (u.capture alive cls thread method).2.safepoints = u.memory.safepoints ∧
      (u.memory.safepoints.depth = 0 → ¬BrokeScope (u.capture alive cls thread method).1) := by
  rw [capture_eq]
  rcases Builder.scopes_start u.config.backtrace.chunkSize u.memory with
    ⟨b, m, hstart, hactive, hdepth⟩ | ⟨e, m, hstart, hscopes, hkept⟩
  · -- A builder was begun, so there was no scope before
    have hallowed := Builder.allowed_of_start hstart
    have hzero := (Safepoints.allowed_iff _).mp hallowed
    have hone : m.safepoints.depth = 1 := by omega
    have hclosed : ∀ {b' : Builder} {m' : Memory}, b'.verifier = b.verifier →
        m'.safepoints = m.safepoints → (b'.finish m').2.safepoints = u.memory.safepoints ∧
          (b'.abandon m').safepoints = u.memory.safepoints := by
      intro b' m' hverifier hsame
      obtain ⟨hfinish, habandon⟩ := Builder.scopes_close (hverifier ▸ hactive) m'
      rw [hsame, hone] at hfinish habandon
      exact ⟨congrArg Safepoints.mk (hfinish.trans hzero.symm),
        congrArg Safepoints.mk (habandon.trans hzero.symm)⟩
    simp only [hstart]
    split
    · exact ⟨(hclosed rfl rfl).2, fun _ => not_brokeScope_ok _⟩
    · rename_i fill hfill
      have hfilled : b.Kept m (fill b m) := kept_filling hfill hone
      split
      · rename_i e b' m' heq
        rw [heq] at hfilled
        refine ⟨(hclosed hfilled.verifier_eq hfilled.safepoints_eq).2, fun _ hbroken => ?_⟩
        cases hbroken
        exact hfilled.unbroken rfl
      · rename_i b' m' heq
        rw [heq] at hfilled
        exact ⟨(hclosed hfilled.verifier_eq hfilled.safepoints_eq).1, fun _ => not_brokeScope_ok _⟩
  -- Without a builder nothing is left open
  · simp only [hstart]
    exact ⟨hscopes, fun hzero hbroken => hkept hzero (Except.error.inj hbroken)⟩

/-- Inside a scope `Universe.capture` ends with its first chunk. -/
theorem capture_of_nested (hpos : 0 < u.config.backtrace.chunkSize)
    (hdepth : 0 < u.memory.safepoints.depth) (alive : ClassId → Bool) (cls : ClassId)
    (thread : ManagedThread) (method : Option Method) :
    u.capture alive cls thread method = (.error (.violation .safepointInScope), u.memory) := by
  rw [capture_eq]
  simp only [Builder.start_of_nested hpos hdepth]

end Capture

/-- `Universe.fillInStackTrace` leaves the scopes as they were, and breaks no promise outside of
    them. -/
theorem scopes_fillInStackTrace (u : Universe) (others : List ClassId) (t : Throwable)
    (thread : ManagedThread) (method : Option Method) :
    (u.fillInStackTrace others t thread method).2.2.memory.safepoints = u.memory.safepoints ∧
      (u.memory.safepoints.depth = 0 →
        ¬BrokeScope (u.fillInStackTrace others t thread method).1) := by
  unfold fillInStackTrace
  split
  · exact ⟨rfl, fun _ => not_brokeScope_ok _⟩
  · -- Giving the former trace back leaves the scopes alone
    obtain ⟨hscopes, hkept⟩ := scopes_capture { u with memory := (t.clearTrace u.memory).2 }
      ({ u with memory := (t.clearTrace u.memory).2 }.owned
        ((t.clearTrace u.memory).1.owners ++ others)).contains
      (t.clearTrace u.memory).1.head.cls thread method
    simp only
    split
    · rename_i hcapture
      rw [hcapture] at hscopes hkept
      exact ⟨hscopes, fun hzero hbroken => hkept hzero (congrArg Except.error (Except.error.inj hbroken))⟩
    · rename_i hcapture
      rw [hcapture] at hscopes
      exact ⟨hscopes, fun _ => not_brokeScope_ok _⟩
    · rename_i hcapture
      rw [hcapture] at hscopes
      exact ⟨hscopes, fun _ => not_brokeScope_ok _⟩

/-- A capture that `Universe.fillInStackTrace` passes over does not look at the scopes. -/
theorem unbroken_fillInStackTrace (u : Universe)
    (hpassed : ¬(u.config.backtrace.enabled = true ∧ t.head.isFillable = true))
    (others : List ClassId) (thread : ManagedThread) (method : Option Method) :
    ¬BrokeScope (u.fillInStackTrace others t thread method).1 := by
  have hpass : (!u.config.backtrace.enabled || !t.head.isFillable) = true := by
    rw [← Bool.not_and, Bool.not_eq_true', ← Bool.not_eq_true, Bool.and_eq_true]
    exact hpassed
  simp only [fillInStackTrace, hpass, if_true]
  exact not_brokeScope_ok _

/-- Inside a scope `Universe.fillInStackTrace`, if it captures at all, gives the former trace back and
    breaks the promise; nothing is charged. -/
theorem fillInStackTrace_of_nested (hpos : 0 < u.config.backtrace.chunkSize)
    (hdepth : 0 < u.memory.safepoints.depth) (henabled : u.config.backtrace.enabled = true)
    (hfillable : t.head.isFillable = true) (others : List ClassId) (thread : ManagedThread)
    (method : Option Method) :
    BrokeScope (u.fillInStackTrace others t thread method).1 ∧
      (u.fillInStackTrace others t thread method).2.2.memory =
        u.memory.releaseAll t.head.reservations := by
  have hcapture := capture_of_nested (u := { u with memory := (t.clearTrace u.memory).2 }) hpos hdepth
    ({ u with memory := (t.clearTrace u.memory).2 }.owned
      ((t.clearTrace u.memory).1.owners ++ others)).contains
    (t.clearTrace u.memory).1.head.cls thread method
  simp only [fillInStackTrace, henabled, hfillable, Bool.not_true, Bool.or_self,
    Bool.false_eq_true, if_false, hcapture]
  exact ⟨rfl, rfl⟩

/-! ## Stores in place -/

/-- `Universe.refillStackTrace` leaves the scopes as they were and breaks no promise, for the first
    chunk of the store that it fills again has room. -/
theorem scopes_refillStackTrace (ht : t.head.Consistent) (u : Universe) (others : List ClassId)
    (thread : ManagedThread) :
    (u.refillStackTrace others t thread).2.2.memory.safepoints = u.memory.safepoints ∧
      ¬BrokeScope (u.refillStackTrace others t thread).1 := by
  cases henabled : u.config.backtrace.enabled with
  | false =>
    simp only [refillStackTrace, henabled, Bool.not_false, if_true]
    exact ⟨trivial, not_brokeScope_ok _⟩
  | true =>
    cases htrace : t.head.trace with
    | none =>
      simp only [refillStackTrace, henabled, Bool.not_true, Bool.false_eq_true, if_false,
        Throwable.takeTrace, htrace]
      exact ⟨trivial, not_brokeScope_ok _⟩
    | some s =>
      -- The builder is reopened empty, so it has room for one frame at least
      have hblank := Builder.blank_reopen (ht.usable s htrace) u.memory
      have hroom : (Builder.reopen s u.memory).1.depth < s.chunkSize :=
        hblank.depth_eq ▸ (ht.usable s htrace).chunkSize_pos
      obtain ⟨r, b, m, hrefill⟩ : ∃ r b m, refillAll u.program
          (u.owned (t.takeTrace.2.owners ++ others)) s.chunkSize (Walk.ofStack thread.stack).error
          (Builder.reopen s u.memory).1 (Builder.reopen s u.memory).2
          (Walk.ofStack thread.stack).activations = (r, b, m) := ⟨_, _, _, rfl⟩
      obtain ⟨hkept, -⟩ := refillAll_untouched _ hblank.sound rfl hroom hrefill
      rw [refillStackTrace_of_trace henabled htrace hrefill]
      refine ⟨?_, fun hbroken => ?_⟩
      · -- The builder closes the scope that it was opened with
        have hverifier : b.verifier = (Builder.reopen s u.memory).1.verifier := hkept.verifier_eq
        have hopened : m.safepoints = u.memory.safepoints.openScope.2 := hkept.safepoints_eq
        simp only [Builder.snd_finish, hverifier, hopened]
        exact Safepoints.close_openScope _
      · cases r with
        | ok _ => cases hbroken
        | error e => exact hkept.unbroken (congrArg Except.error (Except.error.inj hbroken))

/-- `Universe.allocateTrace` leaves the scopes as they were, and breaks no promise outside of them. -/
theorem scopes_allocateTrace (u : Universe) (t : Throwable) :
    (u.allocateTrace t).2.2.memory.safepoints = u.memory.safepoints ∧
      (u.memory.safepoints.depth = 0 → ¬BrokeScope (u.allocateTrace t).1) := by
  unfold allocateTrace
  split
  · exact ⟨rfl, fun _ => not_brokeScope_ok _⟩
  · rcases Builder.scopes_start u.config.backtrace.chunkSize u.memory with
      ⟨b, m, hstart, hactive, hdepth⟩ | ⟨e, m, hstart, hscopes, hkept⟩
    · obtain ⟨hfinish, -⟩ := Builder.scopes_close hactive m
      rw [hdepth, Nat.add_sub_cancel] at hfinish
      simp only [hstart]
      exact ⟨congrArg Safepoints.mk hfinish, fun _ => not_brokeScope_ok _⟩
    · simp only [hstart]
      exact ⟨hscopes, fun hzero hbroken => hkept hzero (Except.error.inj hbroken)⟩

/-- A runtime that records no traces does not look at the scopes in `Universe.allocateTrace`. -/
theorem unbroken_allocateTrace (u : Universe) (hdisabled : u.config.backtrace.enabled = false)
    (t : Throwable) : ¬BrokeScope (u.allocateTrace t).1 := by
  simp only [allocateTrace, hdisabled, Bool.not_false, if_true]
  exact not_brokeScope_ok _

/-- Inside a scope `Universe.allocateTrace` allocates nothing in advance. -/
theorem allocateTrace_of_nested (hpos : 0 < u.config.backtrace.chunkSize)
    (hdepth : 0 < u.memory.safepoints.depth) (henabled : u.config.backtrace.enabled = true)
    (t : Throwable) :
    u.allocateTrace t = (.error (.violation .safepointInScope), t, u) := by
  simp only [allocateTrace, henabled, Bool.not_true, Bool.false_eq_true, if_false,
    Builder.start_of_nested hpos hdepth]

/-- What came of `Universe.refillStackTrace` for the error that is handed out, if there is one left. -/
def outOfMemoryOutcome (u : Universe) (others : List ClassId) (thread : ManagedThread)
    (message : Option String) : Except (Failure TraceError) Nat :=
  if !u.config.backtrace.enabled then .ok 0
  else
    match u.pool with
    | [] => .ok 0
    | t :: pool =>
      ({ u with pool }.refillStackTrace others (t.modifyHead ({ · with message })) thread).1

/-- `Universe.outOfMemoryError` leaves the scopes as they were and breaks no promise, as
    `Universe.refillStackTrace` does. -/
theorem scopes_outOfMemoryError (hu : u.PoolConsistent) (others : List ClassId)
    (thread : ManagedThread) (message : Option String) :
    (u.outOfMemoryError others thread message).2.memory.safepoints = u.memory.safepoints ∧
      ¬BrokeScope (u.outOfMemoryOutcome others thread message) := by
  unfold outOfMemoryError outOfMemoryOutcome
  cases henabled : u.config.backtrace.enabled with
  | false =>
    simp only [Bool.not_false, if_true]
    exact ⟨trivial, not_brokeScope_ok _⟩
  | true =>
    cases hpool : u.pool with
    | nil => exact ⟨rfl, not_brokeScope_ok _⟩
    | cons t pool =>
      have ht := hu t (hpool ▸ List.mem_cons_self)
      have hnamed : (t.modifyHead ({ · with message })).head.Consistent := ⟨ht.depth_eq, ht.usable⟩
      exact scopes_refillStackTrace hnamed { u with pool } others thread

end Universe

end StackTrace
