import StackTrace.Proofs.Capture.Owners
import StackTrace.Proofs.Store.Books

/-!
# The books of a runtime

Every call that captures, fills or gives up a trace keeps the books, whether it succeeds or fails on
the way: what is charged is held by the throwable at hand, by the prepared errors, or by others.

## Key results

- `Universe.paid_fillInStackTrace`, `Universe.paid_refillStackTrace`, `Universe.paid_allocateTrace`:
  what the throwable holds after a call
- `Universe.balanced_outOfMemoryError`: a prepared error passes out of the pool with what it holds
- `Universe.balanced_genesis`: a runtime begins with balanced books
-/

namespace StackTrace

/-! ## Loops -/

section Loops

variable {limit chunkSize rest : Nat} {b : Builder} {m : Memory} {error : Option DebugInfo.Error}

/-- `recordAll` keeps `Builder.Paid`, however it ends. -/
private theorem paid_recordAll {p : FilterPolicy} {maxDepth : Nat} {f : FrameFilter} (as : List Activation)
    (h : b.Paid limit chunkSize rest m) :
    (recordAll p maxDepth error f b m as).2.1.Paid limit chunkSize rest
      (recordAll p maxDepth error f b m as).2.2 := by
  -- Induction on what is left of the walk, with the filter and the builder as they then are
  induction as generalizing f b m with
  | nil =>
    unfold recordAll
    split
    · exact h
    · split
      · exact h
      · exact h
  | cons a as ih =>
    unfold recordAll
    split
    · exact h
    · split
      · exact ih h
      · rename_i holder _
        split
        -- A frame is pushed, which may be refused
        · have hpushed := h.push holder a.method a.bci
          split
          · rename_i hpush
            rw [hpush] at hpushed
            exact hpushed
          · rename_i hpush
            rw [hpush] at hpushed
            exact ih hpushed
        · split
          -- A hidden frame in front of all others sets the marker, which may be refused
          · have hmarked := h.markHiddenTop
            split
            · rename_i hmark
              rw [hmark] at hmarked
              exact hmarked
            · rename_i hmark
              rw [hmark] at hmarked
              exact ih hmarked
          · exact ih h
        · exact ih h

/-- `refillAll` keeps `Builder.Paid`, however it ends. -/
private theorem paid_refillAll {p : Program} {outside : ClassSet} {slots : Nat} (as : List Activation)
    (h : b.Paid limit chunkSize rest m) :
    (refillAll p outside slots error b m as).2.1.Paid limit chunkSize rest
      (refillAll p outside slots error b m as).2.2 := by
  -- Induction on what is left of the walk; only a push changes the builder
  induction as generalizing b m with
  | nil =>
    cases error with
    | none => exact h
    | some e => exact h
  | cons a as ih =>
    unfold refillAll
    simp only
    split
    · exact ih h
    · rename_i holder _
      have hpushed := h.push holder a.method a.bci
      split
      · rename_i hpush
        rw [hpush] at hpushed
        exact hpushed
      · rename_i hpush
        rw [hpush] at hpushed
        split
        · exact hpushed
        · exact ih hpushed

end Loops

namespace Universe

variable {limit rest : Nat} {u : Universe} {t : Throwable}

/-! ## Single calls -/

/-- `Universe.filling` keeps `Builder.Paid`, whatever it is that records. -/
theorem paid_filling {alive : ClassId → Bool} {cls : ClassId} {thread : ManagedThread}
    {method : Option Method}
    {fill : Builder → Memory → Except (Failure TraceError) Unit × Builder × Memory}
    (hfill : u.filling alive cls thread method = some fill) {chunkSize : Nat} {b : Builder}
    {m : Memory} (h : b.Paid limit chunkSize rest m) :
    (fill b m).2.1.Paid limit chunkSize rest (fill b m).2.2 := by
  unfold filling at hfill
  split at hfill
  · cases hfill
    exact paid_recordAll _ h
  · obtain ⟨⟨method, holder⟩, -, rfl⟩ := Option.map_eq_some_iff.mp hfill
    exact h.push holder method 0

/-- The bytes that the result of `Universe.capture` holds. -/
def capturedBytes : Except (Failure TraceError) (Option (Store × Nat)) → Nat
  | .ok (some (s, _)) => s.held
  | .ok none | .error _ => 0

/-- `Universe.capture` charges what the captured trace holds; if it captures nothing, it charges
    nothing. -/
private theorem balanced_capture (hm : u.memory.heap.Balanced limit rest) (alive : ClassId → Bool)
    (cls : ClassId) (thread : ManagedThread) (method : Option Method) :
    (u.capture alive cls thread method).2.heap.Balanced limit
      (capturedBytes (u.capture alive cls thread method).1 + rest) ∧
    ∀ s depth, (u.capture alive cls thread method).1 = .ok (some (s, depth)) →
      s.PricedAt u.config.backtrace.chunkSize := by
  rw [capture_eq]
  rcases Builder.paid_start hm u.config.backtrace.chunkSize with
    ⟨b, m, hstart, hpaid⟩ | ⟨e, m, hstart, hm'⟩
  · simp only [hstart]
    split
    · -- There is nothing to record, and the builder gives its chunk back
      exact ⟨hpaid.abandon.of_eq (Nat.zero_add rest).symm, nofun⟩
    · rename_i fill hfill
      have hfilled := paid_filling hfill hpaid
      split
      · -- Recording failed part way
        rename_i heq
        rw [heq] at hfilled
        exact ⟨hfilled.abandon.of_eq (Nat.zero_add rest).symm, nofun⟩
      · rename_i heq
        rw [heq] at hfilled
        -- Recording has ended well, and the finished store goes on to hold what was charged
        obtain ⟨hbalanced, hpriced⟩ := hfilled.finish
        refine ⟨hbalanced, fun s depth hs => ?_⟩
        cases hs
        exact hpriced
  · simp only [hstart]
    exact ⟨hm'.of_eq (Nat.zero_add rest).symm, nofun⟩

/-- `Universe.fillInStackTrace` keeps `Throwable.Paid`, however it ends. -/
theorem paid_fillInStackTrace (h : t.Paid limit u.config.backtrace.chunkSize rest u.memory)
    (others : List ClassId) (thread : ManagedThread) (method : Option Method) :
    (u.fillInStackTrace others t thread method).2.1.Paid limit u.config.backtrace.chunkSize rest
      (u.fillInStackTrace others t thread method).2.2.memory := by
  -- The old trace is given back first, so that it leaves room for the new one
  have hcleared := h.clearTrace
  unfold fillInStackTrace
  split
  · exact h
  · obtain ⟨hbalanced, hpriced⟩ := balanced_capture
      (u := { u with memory := (t.clearTrace u.memory).2 }) hcleared.balanced
      ({ u with memory := (t.clearTrace u.memory).2 }.owned
        ((t.clearTrace u.memory).1.owners ++ others)).contains
      (t.clearTrace u.memory).1.head.cls thread method
    simp only
    split
    · rename_i hcapture
      rw [hcapture] at hbalanced
      exact ⟨hbalanced.of_eq (Nat.zero_add _), hcleared.priced⟩
    · rename_i hcapture
      rw [hcapture] at hbalanced
      exact ⟨hbalanced.of_eq (Nat.zero_add _), hcleared.priced⟩
    -- There is a new trace, and it takes the place of none
    · rename_i s depth memory hcapture
      rw [hcapture] at hbalanced hpriced
      have hheld : (t.clearTrace u.memory).1.Paid limit u.config.backtrace.chunkSize
          (s.held + rest) memory :=
        ⟨hbalanced.of_eq (Nat.add_left_comm ..), hcleared.priced⟩
      exact hheld.setTrace (hpriced s depth rfl) depth

/-- `Universe.refillStackTrace` keeps `Throwable.Paid`, however it ends. -/
theorem paid_refillStackTrace (h : t.Paid limit u.config.backtrace.chunkSize rest u.memory)
    (others : List ClassId) (thread : ManagedThread) :
    (u.refillStackTrace others t thread).2.1.Paid limit u.config.backtrace.chunkSize rest
      (u.refillStackTrace others t thread).2.2.memory := by
  unfold refillStackTrace
  split
  · exact h
  · cases htrace : t.head.trace with
    | none =>
      simp only [Throwable.takeTrace, htrace]
      refine ⟨h.balanced.of_eq ?_, h.priced.untraced rfl⟩
      rw [Throwable.held_of_untraced htrace, Throwable.held_of_untraced rfl]
      rfl
    | some s =>
      simp only [Throwable.takeTrace, htrace]
      -- While its trace is being filled again, the throwable holds what its causes do
      let taken := t.modifyHead ({ · with trace := none, depth := 0 })
      have htaken : taken.held = Heap.total (t.causes.flatMap Condition.reservations) :=
        Throwable.held_of_untraced rfl
      have hs : s.PricedAt u.config.backtrace.chunkSize := h.priced _ List.mem_cons_self s htrace
      have hreopened : (Builder.reopen s u.memory).1.Paid limit u.config.backtrace.chunkSize
          (taken.held + rest) (Builder.reopen s u.memory).2 := by
        apply Builder.paid_reopen hs
        refine h.balanced.of_eq ?_
        rw [Throwable.held_of_traced htrace, htaken, Nat.add_assoc]
      obtain ⟨hbalanced, hpriced⟩ := (paid_refillAll _ hreopened).finish
      refine Throwable.Paid.setTrace (t := taken) ⟨hbalanced.of_eq ?_, ?_⟩ hpriced _
      · exact Nat.add_left_comm ..
      · exact h.priced.untraced rfl

/-- `Universe.allocateTrace` keeps `Throwable.Paid`, however it ends. -/
theorem paid_allocateTrace (h : t.Paid limit u.config.backtrace.chunkSize rest u.memory) :
    (u.allocateTrace t).2.1.Paid limit u.config.backtrace.chunkSize rest
      (u.allocateTrace t).2.2.memory := by
  unfold allocateTrace
  split
  · exact h
  · rcases Builder.paid_start h.balanced u.config.backtrace.chunkSize with
      ⟨b, m, hstart, hpaid⟩ | ⟨e, m, hstart, hm'⟩
    · simp only [hstart]
      obtain ⟨hbalanced, hpriced⟩ := hpaid.finish
      -- Here the old trace is given back last, when the new store is charged
      have hheld : t.Paid limit u.config.backtrace.chunkSize ((b.finish m).1.held + rest)
          (b.finish m).2 := ⟨hbalanced.of_eq (Nat.add_left_comm ..), h.priced⟩
      exact hheld.setTrace hpriced 0
    · simp only [hstart]
      exact ⟨hm', h.priced⟩

/-! ## The pool -/

/-- The bytes that the prepared errors in `Universe.pool` hold. -/
def pooled (u : Universe) : Nat := (u.pool.map Throwable.held).sum

/-- The prepared errors hold what is charged, but for `rest` bytes that others hold. -/
structure Balanced (limit rest : Nat) (u : Universe) : Prop where
  balanced : u.memory.heap.Balanced limit (u.pooled + rest)
  priced : ∀ t ∈ u.pool, t.PricedAt u.config.backtrace.chunkSize

/-- `Throwable.prepared` holds nothing yet. -/
theorem held_prepared (cls : ClassId) : (Throwable.prepared cls).held = 0 := rfl

/-- `Throwable.prepared` has no trace, so it is priced at any size. -/
theorem pricedAt_prepared (cls : ClassId) (chunkSize : Nat) :
    (Throwable.prepared cls).PricedAt chunkSize :=
  Throwable.pricedAt_of_untraced rfl chunkSize

/-- One step of `Universe.prepareErrors` keeps the books: the new error holds what it was charged. -/
theorem Balanced.prepare {u₁ : Universe} (hu : u.Balanced limit rest)
    (h : u.allocateTrace (Throwable.prepared u.outOfMemoryClass) = (.ok (), t, u₁)) :
    Balanced limit rest { u₁ with pool := t :: u₁.pool } := by
  -- Before its store is allocated, the new error holds nothing
  have hpaid : (Throwable.prepared u.outOfMemoryClass).Paid limit
      u.config.backtrace.chunkSize (u.pooled + rest) u.memory := by
    refine ⟨hu.balanced.of_eq ?_, pricedAt_prepared _ _⟩
    rw [held_prepared, Nat.zero_add]
  obtain ⟨memory, hworld⟩ := u.world_allocateTrace (Throwable.prepared u.outOfMemoryClass)
  have hallocated := paid_allocateTrace hpaid
  rw [h] at hworld hallocated
  cases hworld
  refine ⟨hallocated.balanced.of_eq ?_, fun t' ht' => ?_⟩
  · simp only [pooled, List.map_cons, List.sum_cons]
    omega
  · rcases List.mem_cons.mp ht' with rfl | ht'
    · exact hallocated.priced
    · exact hu.priced t' ht'

/-- `Universe.prepareErrors` keeps the books. -/
theorem balanced_prepareErrors (count : Nat) {u u' : Universe} (hu : u.Balanced limit rest)
    (h : u.prepareErrors count = .ok u') : u'.Balanced limit rest := by
  induction count generalizing u with
  | zero =>
    cases h
    exact hu
  | succ count ih =>
    unfold prepareErrors at h
    split at h
    · cases h
    · rename_i hallocate
      exact ih (hu.prepare hallocate) h

/-- `Universe.genesis` with an exact limit on the heap begins with balanced books. -/
theorem balanced_genesis {config : RuntimeConfig} (hlimit : config.heap.limitBytes = some limit)
    (hword : limit < maxWord) (h : genesis config = .ok u) : u.Balanced limit 0 := by
  have hboot : (boot config).Balanced limit 0 := by
    refine ⟨⟨?_, hword, rfl, Nat.zero_le _⟩, nofun⟩
    exact hlimit
  unfold genesis at h
  split at h
  · cases h
  · split at h
    · cases h
    · simp only at h
      split at h
      · exact balanced_prepareErrors _ hboot h
      · cases h
        exact hboot

/-- `Universe.prepareErrors` leaves the settings. -/
theorem config_prepareErrors (count : Nat) {u u' : Universe} (h : u.prepareErrors count = .ok u') :
    u'.config = u.config := by
  induction count generalizing u with
  | zero =>
    cases h
    rfl
  | succ count ih =>
    unfold prepareErrors at h
    split at h
    · cases h
    · rename_i t u₁ hallocate
      obtain ⟨memory, hworld⟩ := u.world_allocateTrace (Throwable.prepared u.outOfMemoryClass)
      rw [hallocate] at hworld
      cases hworld
      have hrest := ih h
      exact hrest

/-- `Universe.genesis` takes the settings that it is given. -/
theorem config_genesis {config : RuntimeConfig} (h : genesis config = .ok u) :
    u.config = config := by
  unfold genesis at h
  split at h
  · cases h
  · split at h
    · cases h
    · simp only at h
      split at h
      · exact config_prepareErrors _ h
      · cases h
        rfl

/-- An error that `Universe.outOfMemoryError` hands out holds what it held in the pool. -/
theorem balanced_outOfMemoryError (hu : u.Balanced limit rest) (others : List ClassId)
    (thread : ManagedThread) (message : Option String) :
    (u.outOfMemoryError others thread message).2.Balanced limit
      ((u.outOfMemoryError others thread message).1.held + rest) ∧
    (u.outOfMemoryError others thread message).1.PricedAt u.config.backtrace.chunkSize := by
  -- An error made on the spot holds nothing
  have hplain : u.Balanced limit
      (((Throwable.prepared u.outOfMemoryClass).modifyHead ({ · with message })).held + rest) :=
    ⟨hu.balanced.of_eq (congrArg (u.pooled + ·) (Nat.zero_add rest).symm), hu.priced⟩
  unfold outOfMemoryError
  simp only
  split
  · exact ⟨hplain, (pricedAt_prepared _ _).untraced rfl⟩
  · split
    · exact ⟨hplain, (pricedAt_prepared _ _).untraced rfl⟩
    · rename_i t pool hpool
      -- The error leaves the pool before it is filled
      let left : Universe := { u with pool }
      have hsum : u.pooled = t.held + left.pooled := by
        simp only [pooled, hpool, List.map_cons, List.sum_cons]
        rfl
      have htaken : t.PricedAt u.config.backtrace.chunkSize :=
        hu.priced t (hpool ▸ List.mem_cons_self)
      have hpaid : (t.modifyHead ({ · with message })).Paid limit left.config.backtrace.chunkSize
          (left.pooled + rest) left.memory := by
        refine ⟨hu.balanced.of_eq ?_, htaken.sameTrace rfl⟩
        rw [hsum, Nat.add_assoc]
        rfl
      have hrefilled := paid_refillStackTrace hpaid others thread
      obtain ⟨memory, hworld⟩ := left.world_refillStackTrace others
        (t.modifyHead ({ · with message })) thread
      refine ⟨⟨?_, ?_⟩, hrefilled.priced⟩
      · rw [hworld] at hrefilled ⊢
        exact hrefilled.balanced.of_eq (Nat.add_left_comm ..)
      · rw [hworld]
        exact fun t' ht' => hu.priced t' (hpool ▸ List.mem_cons_of_mem t ht')

end Universe

end StackTrace
