import StackTrace.Proofs.Capture.Recording
import StackTrace.Proofs.Store.History

/-!
# The depth of a throwable

A throwable keeps its depth beside its trace.  The two are set in several places: when a capture ends
well or is given up, when a prepared error is filled again, as far as that goes, and when a trace is
allocated in advance.  In each of them the depth is the number of frames that the trace replays.

## Key results

- `Universe.capture_ok`: a capture that ends well gives back a finished store and the depth that its
  builder has counted
- `Universe.consistent_fillInStackTrace`, `Universe.consistent_refillStackTrace`,
  `Universe.consistent_outOfMemoryError`: what one call keeps
-/

namespace StackTrace

/-- The depth of a condition is `Store.frameCount` of its trace, which can be filled again. -/
structure Condition.Consistent (c : Condition) : Prop where
  depth_eq : c.depth = (c.trace.map Store.frameCount).getD 0
  usable : ∀ s, c.trace = some s → s.Usable

namespace Throwable

/-- A throwable without a trace is `Condition.Consistent` at depth 0. -/
theorem consistent_of_no_trace {t : Throwable} (htrace : t.head.trace = none)
    (hdepth : t.head.depth = 0) : t.head.Consistent where
  depth_eq := by
    rw [hdepth, htrace]
    rfl
  usable := fun s hs => nomatch htrace.symm.trans hs

/-- What `Builder.finish` leaves is published by `Throwable.setTrace` with the depth that the builder
    has counted. -/
private theorem consistent_setTrace_finish {b : Builder} (hb : b.Sound) (t : Throwable) (m m' : Memory) :
    (t.setTrace (b.finish m).1 b.depth m').1.head.Consistent where
  depth_eq := (hb.frameCount_finish m).symm
  usable := by
    intro s hs
    cases hs
    exact Builder.usable_finish hb.usable m

end Throwable

/-! ## Filling a prepared store again -/

/-- However `refillAll` ends, the builder is `Builder.Sound`. -/
private theorem refillAll_sound {p : Program} {outside : ClassSet} {limit : Nat}
    {error : Option DebugInfo.Error} {b : Builder} {m : Memory} (as : List Activation)
    (hb : b.Sound) : (refillAll p outside limit error b m as).2.1.Sound := by
  -- Induction on what is left of the walk
  induction as generalizing b m with
  | nil =>
    cases error with
    | none => exact hb
    | some e => exact hb
  | cons a as ih =>
    unfold refillAll
    simp only
    split
    · exact ih hb
    · split
      · -- The builder is published as it was before the push that failed
        rename_i hpush
        rw [Builder.push_error hpush]
        exact hb
      · rename_i hpush
        have hsound := (hb.push_ok hpush).sound
        split
        · exact hsound
        · exact ih hsound

namespace Universe

variable {u : Universe} {t : Throwable}

/-! ## What one call keeps -/

/-- A `Universe.capture` that ends well gives back a store with the depth that goes with it. -/
theorem capture_ok {alive : ClassId → Bool} {cls : ClassId} {thread : ManagedThread}
    {method : Option Method} {s : Store} {depth : Nat} {m : Memory}
    (h : u.capture alive cls thread method = (.ok (some (s, depth)), m)) :
    ∃ b m, b.Sound ∧ s = (Builder.finish b m).1 ∧ depth = b.depth := by
  unfold capture at h
  split at h
  · exact nomatch h
  · rename_i b m₁ hstart
    have hblank := (Builder.start_ok hstart).1
    simp only at h
    split at h
    · -- Managed code: the loop has recorded it
      split at h
      · exact nomatch h
      · rename_i hrun
        have hcap : u.config.backtrace.maxDepth = 0 ∨ b.depth ≤ u.config.backtrace.maxDepth :=
          .inr (hblank.depth_eq ▸ Nat.zero_le _)
        cases h
        exact ⟨_, _, (recordAll_ok _ hblank.sound hcap hrun).sound, rfl, rfl⟩
    · -- No managed code: at most the given method is pushed
      split at h
      · exact nomatch h
      · split at h
        · exact nomatch h
        · rename_i hpush
          cases h
          exact ⟨_, _, (hblank.sound.push_ok hpush).sound, rfl, rfl⟩

/-- `Universe.fillInStackTrace` keeps the depth consistent, reports it if it ends well, and leaves the
    prepared errors alone. -/
theorem consistent_fillInStackTrace (ht : t.head.Consistent) (others : List ClassId)
    (thread : ManagedThread) (method : Option Method)
    {result : Except (Failure TraceError) Nat} {t' : Throwable} {u' : Universe}
    (h : u.fillInStackTrace others t thread method = (result, t', u')) :
    t'.head.Consistent ∧ (∀ n, result = .ok n → n = t'.head.depth) ∧ u'.pool = u.pool := by
  unfold fillInStackTrace at h
  split at h
  · -- Passed over
    cases h
    exact ⟨ht, fun n hn => (Except.ok.inj hn).symm, rfl⟩
  · -- The former trace has been dropped, whatever the capture gives back
    simp only [Throwable.clearTrace] at h
    split at h
    · cases h
      exact ⟨Throwable.consistent_of_no_trace rfl rfl, nofun, rfl⟩
    · cases h
      exact ⟨Throwable.consistent_of_no_trace rfl rfl, fun n hn => (Except.ok.inj hn).symm, rfl⟩
    · rename_i hcapture
      obtain ⟨b, m, hb, rfl, rfl⟩ := capture_ok hcapture
      cases h
      exact ⟨Throwable.consistent_setTrace_finish hb _ _ _, fun n hn => (Except.ok.inj hn).symm, rfl⟩

/-- `Universe.refillStackTrace` keeps the depth consistent, also if it fails part way, and leaves the
    prepared errors alone. -/
theorem consistent_refillStackTrace (ht : t.head.Consistent) (others : List ClassId)
    (thread : ManagedThread) {result : Except (Failure TraceError) Nat} {t' : Throwable}
    {u' : Universe} (h : u.refillStackTrace others t thread = (result, t', u')) :
    t'.head.Consistent ∧ u'.pool = u.pool := by
  unfold refillStackTrace at h
  split at h
  · cases h
    exact ⟨ht, rfl⟩
  · cases htrace : t.head.trace with
    | none =>
      simp only [Throwable.takeTrace, htrace] at h
      cases h
      exact ⟨Throwable.consistent_of_no_trace rfl rfl, rfl⟩
    | some s =>
      -- The builder starts out anew in the store, and is published however it ends
      have hblank := Builder.blank_reopen (ht.usable s htrace) u.memory
      simp only [Throwable.takeTrace, htrace] at h
      cases h
      exact ⟨Throwable.consistent_setTrace_finish (refillAll_sound _ hblank.sound) _ _ _, rfl⟩

/-- `Universe.allocateTrace` keeps the depth consistent, and leaves the prepared errors alone. -/
theorem consistent_allocateTrace (ht : t.head.Consistent)
    {result : Except (Failure TraceError) Unit} {t' : Throwable} {u' : Universe}
    (h : u.allocateTrace t = (result, t', u')) : t'.head.Consistent ∧ u'.pool = u.pool := by
  unfold allocateTrace at h
  split at h
  · cases h
    exact ⟨ht, rfl⟩
  · split at h
    · cases h
      exact ⟨ht, rfl⟩
    · rename_i b m hstart
      -- Nothing has been written, so the store is published with depth 0
      have hblank := (Builder.start_ok hstart).1
      have hconsistent :=
        Throwable.consistent_setTrace_finish hblank.sound t m (b.finish m).2
      rw [hblank.depth_eq] at hconsistent
      cases h
      exact ⟨hconsistent, rfl⟩

/-- `Condition.Consistent` holds of the prepared errors of a runtime. -/
def PoolConsistent (u : Universe) : Prop := ∀ t ∈ u.pool, t.head.Consistent

/-- `Throwable.prepared` has depth 0. -/
theorem consistent_prepared (cls : ClassId) : (Throwable.prepared cls).head.Consistent :=
  Throwable.consistent_of_no_trace rfl rfl

/-- `Universe.allocateTrace` leaves the prepared errors alone. -/
private theorem pool_allocateTrace (u : Universe) (t : Throwable) :
    (u.allocateTrace t).2.2.pool = u.pool := by
  unfold allocateTrace
  split
  · rfl
  · split
    · rfl
    · rfl

/-- What holds of an error as `Universe.prepareErrors` prepares it holds of all that are prepared. -/
private theorem forall_pool_prepareErrors {Q : Throwable → Prop}
    (hQ : ∀ u : Universe, Q (u.allocateTrace (Throwable.prepared u.outOfMemoryClass)).2.1)
    (count : Nat) {u u' : Universe} (hu : ∀ t ∈ u.pool, Q t) (h : u.prepareErrors count = .ok u') :
    ∀ t ∈ u'.pool, Q t := by
  induction count generalizing u with
  | zero =>
    cases h
    exact hu
  | succ count ih =>
    unfold prepareErrors at h
    split at h
    · exact nomatch h
    · rename_i t u₁ hallocate
      -- The new error is put in front of those that were prepared before
      have hprepared := hQ u
      have hpool := u.pool_allocateTrace (Throwable.prepared u.outOfMemoryClass)
      rw [hallocate] at hprepared hpool
      refine ih (fun t' ht' => ?_) h
      rcases List.mem_cons.mp ht' with rfl | ht'
      · exact hprepared
      · exact hu t' (hpool ▸ ht')

/-- What holds of an error as it is prepared holds of all errors after `Universe.genesis`. -/
theorem forall_pool_genesis {Q : Throwable → Prop}
    (hQ : ∀ u : Universe, Q (u.allocateTrace (Throwable.prepared u.outOfMemoryClass)).2.1)
    {config : RuntimeConfig} {u : Universe} (h : genesis config = .ok u) : ∀ t ∈ u.pool, Q t := by
  have hboot : ∀ t ∈ (boot config).pool, Q t := fun t ht => nomatch ht
  unfold genesis at h
  split at h
  · exact nomatch h
  · split at h
    · exact nomatch h
    · simp only at h
      split at h
      · exact forall_pool_prepareErrors hQ _ hboot h
      · cases h
        exact hboot

/-- `Universe.genesis` starts with the prepared errors in good order. -/
theorem poolConsistent_genesis {config : RuntimeConfig} {u : Universe}
    (h : genesis config = .ok u) : u.PoolConsistent :=
  forall_pool_genesis (fun _ => (consistent_allocateTrace (consistent_prepared _) rfl).1) h

/-- An error by `Universe.outOfMemoryError` is in good order, and so are the prepared errors that are
    left. -/
theorem consistent_outOfMemoryError (hu : u.PoolConsistent) (others : List ClassId)
    (thread : ManagedThread) (message : Option String) {t' : Throwable} {u' : Universe}
    (h : u.outOfMemoryError others thread message = (t', u')) :
    t'.head.Consistent ∧ u'.PoolConsistent := by
  -- An error made on the spot has no trace
  have hplain : ((Throwable.prepared u.outOfMemoryClass).modifyHead
      ({ · with message })).head.Consistent := Throwable.consistent_of_no_trace rfl rfl
  unfold outOfMemoryError at h
  simp only at h
  split at h
  · cases h
    exact ⟨hplain, hu⟩
  · split at h
    · cases h
      exact ⟨hplain, hu⟩
    · rename_i t pool hpool
      -- The message has no part in the depth, and the error that is handed out leaves the pool
      have ht := hu t (hpool ▸ List.mem_cons_self)
      have hnamed : (t.modifyHead ({ · with message })).head.Consistent :=
        ⟨ht.depth_eq, ht.usable⟩
      obtain ⟨result, t₁, u₁, hrefill⟩ : ∃ result t₁ u₁, refillStackTrace { u with pool } others
          (t.modifyHead ({ · with message })) thread = (result, t₁, u₁) := ⟨_, _, _, rfl⟩
      obtain ⟨hconsistent, hleft⟩ := consistent_refillStackTrace hnamed others thread hrefill
      rw [hrefill] at h
      cases h
      refine ⟨hconsistent, fun t' ht' => hu t' ?_⟩
      rw [hleft] at ht'
      exact hpool ▸ List.mem_cons_of_mem t ht'

end Universe

end StackTrace
