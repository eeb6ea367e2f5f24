import StackTrace.Proofs.Capture.Books
import StackTrace.Proofs.Capture.Scopes

/-!
# Room for a trace

A call that captures, fills or sets up a trace goes without a limit on the heap as it goes under one that
leaves room for all that is held at once on the way.  How much that is, is an exact sum over the
reservations of the throwable and of the store that is being filled.  Recording gives nothing back, so
the store holds most when recording ends, well or not (`Universe.recordedBytes`).

A store that is filled again stays within its first chunk, so `Universe.refillStackTrace` allocates
nothing and needs no room.

## Key results

- `Universe.capture_withLimit`: a capture, which needs `Universe.recordedBytes`
- `Universe.fillInStackTrace_withLimit`, `Universe.allocateTrace_withLimit`: calls for a throwable, which
  need `Universe.fillPeak` and `Universe.allocatePeak`
- `Universe.refillStackTrace_withLimit`, `Universe.outOfMemoryError_withLimit`: calls that need nothing
- `Universe.genesis_withLimit`: the start, which needs what the prepared errors hold
-/

namespace StackTrace

/-! ## Builders -/

namespace Builder

variable {b : Builder} {m : Memory} {limit rest chunkSize : Nat} {free : Option Nat}

/-- Under the limit that `Heap.Balanced` speaks of, `Memory.Grants` holds for what fits. -/
private theorem grants_inScope (hm : m.heap.Balanced limit rest)
    (hallowed : m.safepoints.allowed = true) : (inScope m).Grants limit :=
  Memory.Limited.grants ⟨hm.limit_eq, hm.limit_lt, depth_inScope hallowed⟩

/-- Without that limit `Memory.Grants` holds all the more. -/
private theorem grants_inScope_withLimit (hm : m.heap.Balanced limit rest)
    (hallowed : m.safepoints.allowed = true) (hfree : Heap.Unlimited free) :
    (inScope (m.withLimit free)).Grants limit where
  admits := by
    intro charge hcharge
    have hword := hm.limit_lt
    cases free with
    | none => rfl
    | some l =>
      have hl := hfree l rfl
      exact decide_eq_true (show charge ≤ l by omega)
  limit_lt := hm.limit_lt
  depth_eq := depth_inScope hallowed

/-- `Memory.withLimit` without a limit leaves a heap that never refuses. -/
private theorem neverRefuses_withLimit (hm : m.heap.Balanced limit rest)
    (hfree : Heap.Unlimited free) : (m.withLimit free).heap.NeverRefuses where
  limit_ge := hfree
  used_le := by
    have hle := hm.used_le
    have hword := hm.limit_lt
    simp only [Memory.withLimit, Heap.withLimit]
    omega

/-- `Builder.start` is granted its first chunk where the limit is lifted. -/
private theorem start_of_unlimited (hm : m.heap.Balanced limit rest) (hfree : Heap.Unlimited free)
    (hpos : 0 < chunkSize) (hallowed : m.safepoints.allowed = true) :
    start chunkSize (m.withLimit free) = (.ok (initial chunkSize),
      (inScope (m.withLimit free)).charged 1 (Chunk.heapBytes chunkSize)) := by
  have hstart := start_eq (m := m.withLimit free) hpos hallowed
  rwa [if_pos ((neverRefuses_withLimit hm hfree).admits_saturatingAdd _ _)] at hstart

/-- Without its limit `Builder.start` goes as under it, if the store that it begins fits. -/
private theorem start_withLimit (hm : m.heap.Balanced limit rest) (hfree : Heap.Unlimited free)
    (hpos : 0 < chunkSize)
    (hroom : rest +
      Memory.granted (·.store.held) (start chunkSize (m.withLimit free)).1 ≤ limit) :
    start chunkSize (m.withLimit free) =
      ((start chunkSize m).1, (start chunkSize m).2.withLimit free) := by
  cases hallowed : m.safepoints.allowed with
  | false =>
    -- Inside a scope nothing is asked of the heap
    have hdepth : 0 < m.safepoints.depth := (Safepoints.allowed_eq_false_iff _).mp hallowed
    rw [start_of_nested hpos hdepth, start_of_nested (m := m.withLimit free) hpos hdepth]
  | true =>
    have hfits : m.heap.used + (initial chunkSize).store.held ≤ limit := by
      rw [start_of_unlimited hm hfree hpos hallowed] at hroom
      rw [hm.used_eq]
      exact hroom
    rw [start_of_fits (m := m.withLimit free) hpos hallowed
      (grants_inScope_withLimit hm hallowed hfree) hfits,
      start_of_fits hpos hallowed (grants_inScope hm hallowed) hfits]
    rfl

/-- `Builder.abandon` takes no notice of the limit. -/
private theorem abandon_withLimit (b : Builder) (m : Memory) (limit : Option Nat) :
    b.abandon (m.withLimit limit) = (b.abandon m).withLimit limit := by
  simp only [abandon, Memory.releaseAll_withLimit]
  rfl

/-- `Builder.finish` takes no notice of the limit. -/
private theorem finish_withLimit (b : Builder) (m : Memory) (limit : Option Nat) :
    b.finish (m.withLimit limit) = ((b.finish m).1, (b.finish m).2.withLimit limit) := by
  unfold finish
  split
  · rfl
  · rfl

/-- `Builder.reopen` takes no notice of the limit. -/
private theorem reopen_withLimit (s : Store) (m : Memory) (limit : Option Nat) :
    reopen s (m.withLimit limit) = ((reopen s m).1, (reopen s m).2.withLimit limit) := by
  simp only [reopen, Memory.releaseAll_withLimit]
  rfl

end Builder

/-- `refillAll` does the same on any memory, which it leaves as it is: a frame that it writes goes into the
    chunk that is being filled. -/
private theorem exists_refillAll_eq {p : Program} {outside : ClassSet} {slots : Nat}
    {error : Option DebugInfo.Error} (as : List Activation) {b : Builder} (hslot : b.slot ≤ b.depth)
    (hroom : b.depth < slots) (hsize : b.store.chunkSize = slots) :
    ∃ r b', ∀ m, refillAll p outside slots error b m as = (r, b', m) := by
  -- Induction on what is left of the walk; each frame takes one slot, so as many slots as frames are taken
  induction as generalizing b with
  | nil =>
    cases error with
    | none => exact ⟨_, _, fun _ => rfl⟩
    | some e => exact ⟨_, _, fun _ => rfl⟩
  | cons a as ih =>
    simp only [refillAll]
    split
    · exact ih hslot hroom hsize
    · rename_i holder _
      cases hfits : Location.fits a.bci with
      | false =>
        simp only [Builder.push_of_not_fits hfits]
        exact ⟨_, _, fun _ => rfl⟩
      | true =>
        obtain ⟨f, -, hpush⟩ := Builder.push_of_fits hfits holder a.method
        -- There is a slot left, so no chunk is asked for
        simp only [hpush, if_pos (show b.slot < b.store.chunkSize by omega)]
        by_cases hfull : slots ≤ (b.write f).depth
        · simp only [if_pos hfull]
          exact ⟨_, _, fun _ => rfl⟩
        · simp only [if_neg hfull]
          refine ih ?_ (Nat.lt_of_not_le hfull) hsize
          rw [Builder.write_eq]
          exact Nat.add_le_add_right hslot 1

/-! ## Captures -/

namespace Throwable

/-- `Throwable.clearTrace` takes no notice of the limit. -/
private theorem clearTrace_withLimit (t : Throwable) (m : Memory) (limit : Option Nat) :
    t.clearTrace (m.withLimit limit) =
      ((t.clearTrace m).1, (t.clearTrace m).2.withLimit limit) := by
  simp only [clearTrace, Memory.releaseAll_withLimit]

/-- `Throwable.setTrace` takes no notice of the limit. -/
private theorem setTrace_withLimit (t : Throwable) (s : Store) (depth : Nat) (m : Memory)
    (limit : Option Nat) : t.setTrace s depth (m.withLimit limit) =
      ((t.setTrace s depth m).1, (t.setTrace s depth m).2.withLimit limit) := by
  simp only [setTrace, Memory.releaseAll_withLimit]

end Throwable

namespace Universe

/-- The same universe with another limit on its heap, or with none. -/
def withLimit (u : Universe) (limit : Option Nat) : Universe :=
  { u with memory := u.memory.withLimit limit }

@[simp] theorem config_withLimit (u : Universe) (limit : Option Nat) :
    (u.withLimit limit).config = u.config := rfl

@[simp] theorem memory_withLimit (u : Universe) (limit : Option Nat) :
    (u.withLimit limit).memory = u.memory.withLimit limit := rfl

@[simp] theorem owned_withLimit (u : Universe) (limit : Option Nat) :
    (u.withLimit limit).owned = u.owned := rfl

/-- The bytes that the store of a capture holds when `recordAll` ends, well or not. -/
def recordedBytes (u : Universe) (alive : ClassId → Bool) (cls : ClassId) (thread : ManagedThread)
    (method : Option Method) : Nat :=
  match Builder.start u.config.backtrace.chunkSize u.memory with
  | (.error _, _) => 0
  | (.ok b, m) =>
    match u.filling alive cls thread method with
    | none => b.store.held
    | some fill => (fill b m).2.1.store.held

/-- The most that a throwable and the store that is being filled for it hold together in the course of
    `Universe.fillInStackTrace`, once the former trace is given back. -/
def fillPeak (u : Universe) (others : List ClassId) (t : Throwable) (thread : ManagedThread)
    (method : Option Method) : Nat :=
  if !u.config.backtrace.enabled || !t.head.isFillable then t.held
  else
    let (t, memory) := t.clearTrace u.memory
    let u := { u with memory }
    t.held + u.recordedBytes (u.owned (t.owners ++ others)).contains t.head.cls thread method

/-- The most that a throwable and the store that is set up for it hold together in the course of
    `Universe.allocateTrace`, before the former trace is given back. -/
def allocatePeak (u : Universe) (t : Throwable) : Nat :=
  if !u.config.backtrace.enabled then t.held
  else
    t.held +
      Memory.granted (·.store.held) (Builder.start u.config.backtrace.chunkSize u.memory).1

variable {u : Universe} {limit rest : Nat} {free : Option Nat} {t : Throwable}

/-- `Universe.capture` where there is nothing to record gives its first chunk back. -/
private theorem capture_of_unfilled {alive : ClassId → Bool} {cls : ClassId} {thread : ManagedThread}
    {method : Option Method} (hgrants : (Builder.inScope u.memory).Grants limit)
    (hallowed : u.memory.safepoints.allowed = true) (hpos : 0 < u.config.backtrace.chunkSize)
    (hfill : u.filling alive cls thread method = none)
    (hfits : u.memory.heap.used +
      (Builder.initial u.config.backtrace.chunkSize).store.held ≤ limit) :
    u.capture alive cls thread method = (.ok none,
      (Builder.initial u.config.backtrace.chunkSize).abandon ((Builder.inScope u.memory).holding
        (Builder.initial u.config.backtrace.chunkSize).store)) := by
  simp only [capture_eq, Builder.start_of_fits hpos hallowed hgrants hfits, hfill]

/-- Without its limit `Universe.capture` goes as under it, if what the store holds in the end fits. -/
theorem capture_withLimit (hm : u.memory.heap.Balanced limit rest) (hfree : Heap.Unlimited free)
    (hpos : 0 < u.config.backtrace.chunkSize) {alive : ClassId → Bool} {cls : ClassId}
    {thread : ManagedThread} {method : Option Method}
    (hroom : rest + (u.withLimit free).recordedBytes alive cls thread method ≤ limit) :
    (u.withLimit free).capture alive cls thread method =
      ((u.capture alive cls thread method).1,
        (u.capture alive cls thread method).2.withLimit free) := by
  cases hallowed : u.memory.safepoints.allowed with
  | false =>
    -- Inside a scope nothing is asked of the heap
    have hdepth : 0 < u.memory.safepoints.depth := (Safepoints.allowed_eq_false_iff _).mp hallowed
    rw [capture_of_nested hpos hdepth, capture_of_nested (u := u.withLimit free) hpos hdepth]
    rfl
  | true =>
    have hunlimited : Builder.start (u.withLimit free).config.backtrace.chunkSize
        (u.withLimit free).memory = _ := Builder.start_of_unlimited hm hfree hpos hallowed
    have hgrants := Builder.grants_inScope hm hallowed
    have hgrants' := Builder.grants_inScope_withLimit hm hallowed hfree
    have hmemory : ∀ s, (Builder.inScope (u.withLimit free).memory).holding s =
        ((Builder.inScope u.memory).holding s).withLimit free := fun _ => rfl
    rw [← hm.used_eq] at hroom
    cases hfill : u.filling alive cls thread method with
    | none =>
      have hfill' : (u.withLimit free).filling alive cls thread method = none := hfill
      simp only [recordedBytes, hunlimited, hfill'] at hroom
      rw [capture_of_unfilled hgrants hallowed hpos hfill hroom,
        capture_of_unfilled (u := u.withLimit free) hgrants' hallowed hpos hfill' hroom]
      simp only [hmemory, Builder.abandon_withLimit]
      rfl
    | some fill =>
      have hfill' : (u.withLimit free).filling alive cls thread method = some fill := hfill
      obtain ⟨m₁, hm₁⟩ : ∃ m₁, m₁ = (Builder.inScope (u.memory.withLimit free)).charged 1
        (Chunk.heapBytes u.config.backtrace.chunkSize) := ⟨_, rfl⟩
      have hnever : m₁.heap.NeverRefuses := by
        rw [hm₁]
        exact (Builder.neverRefuses_withLimit hm hfree).charged 1 _
      have hdepth : m₁.safepoints.depth = 1 := by
        rw [hm₁]
        exact Builder.depth_inScope hallowed
      obtain ⟨r, b, m₂, hrun⟩ : ∃ r b m₂,
          fill (Builder.initial u.config.backtrace.chunkSize) m₁ = (r, b, m₂) := ⟨_, _, _, rfl⟩
      -- As recording ends without a limit, so it ends under one with room for all
      have hbudget := (filling_led hfill (Builder.fresh_initial hpos) hdepth (.inr hnever) hrun).budgeted
      have hrecorded : (u.withLimit free).recordedBytes alive cls thread method = b.store.held := by
        simp only [recordedBytes, hunlimited, hfill']
        rw [hm₁] at hrun
        exact congrArg (·.2.1.store.held) hrun
      rw [hrecorded] at hroom
      rw [capture_of_granted hgrants hallowed hpos hfill hbudget hroom,
        capture_of_granted (u := u.withLimit free) hgrants' hallowed hpos hfill' hbudget hroom]
      cases r with
      | error e => simp only [hmemory, Builder.abandon_withLimit]
      | ok => simp only [hmemory, Builder.finish_withLimit]

/-- `Universe.fillPeak` of a call that is not passed over. -/
private theorem fillPeak_of_fillable (henabled : u.config.backtrace.enabled = true)
    (hnew : t.head.preallocated = false) (others : List ClassId) (thread : ManagedThread)
    (method : Option Method) :
    u.fillPeak others t thread method = (t.clearTrace u.memory).1.held +
      recordedBytes { u with memory := (t.clearTrace u.memory).2 }
        (u.owned ((t.clearTrace u.memory).1.owners ++ others)).contains t.head.cls thread method := by
  simp only [fillPeak, henabled, Condition.isFillable, hnew, Bool.not_true, Bool.not_false,
    Bool.or_self, Bool.false_eq_true, if_false]
  rfl

/-- Without its limit `Universe.fillInStackTrace` goes as under it, if `Universe.fillPeak` fits. -/
theorem fillInStackTrace_withLimit
    (ht : t.Paid limit u.config.backtrace.chunkSize rest u.memory) (hfree : Heap.Unlimited free)
    (hpos : 0 < u.config.backtrace.chunkSize) {others : List ClassId} {thread : ManagedThread}
    {method : Option Method}
    (hroom : (u.withLimit free).fillPeak others t thread method + rest ≤ limit) :
    (u.withLimit free).fillInStackTrace others t thread method =
      ((u.fillInStackTrace others t thread method).1,
        (u.fillInStackTrace others t thread method).2.1,
        (u.fillInStackTrace others t thread method).2.2.withLimit free) := by
  cases henabled : u.config.backtrace.enabled with
  | false => simp only [fillInStackTrace, withLimit, henabled, Bool.not_false, Bool.true_or, if_true]
  | true =>
    have henabled' : (u.withLimit free).config.backtrace.enabled = true := henabled
    cases hnew : t.head.preallocated with
    | true =>
      simp only [fillInStackTrace, withLimit, Condition.isFillable, hnew, Bool.not_true,
        Bool.not_false, Bool.or_true, if_true]
    | false =>
      -- The capture finds the memory that the former trace was given back to
      have hcleared : { u.withLimit free with memory := (t.clearTrace (u.withLimit free).memory).2 } =
          withLimit { u with memory := (t.clearTrace u.memory).2 } free := by
        simp only [withLimit, Throwable.clearTrace_withLimit]
      rw [fillPeak_of_fillable henabled' hnew, hcleared] at hroom
      simp only [owned_withLimit, memory_withLimit, Throwable.clearTrace_withLimit] at hroom
      rw [Nat.add_right_comm] at hroom
      have hcapture := capture_withLimit (u := { u with memory := (t.clearTrace u.memory).2 })
        ht.clearTrace.balanced hfree hpos hroom
      rw [fillInStackTrace_of_fillable henabled others hnew,
        fillInStackTrace_of_fillable henabled' others hnew, hcleared]
      simp only [owned_withLimit, memory_withLimit, Throwable.clearTrace_withLimit, hcapture]
      -- What is left to do does not look at the limit, however the capture ended
      rcases capture { u with memory := (t.clearTrace u.memory).2 } _ _ _ _ with
        ⟨e | ⟨_ | ⟨s, depth⟩⟩, memory⟩
      · rfl
      · rfl
      · simp only [Throwable.setTrace_withLimit]
        rfl

/-- Under the limit, `Universe.fillPeak` fits by itself. -/
theorem fillPeak_le (ht : t.Paid limit u.config.backtrace.chunkSize rest u.memory)
    (others : List ClassId) (thread : ManagedThread) (method : Option Method) :
    u.fillPeak others t thread method + rest ≤ limit := by
  have hheld : t.held + rest ≤ limit := ht.balanced.bytes_le
  unfold fillPeak
  split
  · exact hheld
  · have hcleared := ht.clearTrace
    have hleft : (t.clearTrace u.memory).1.held + rest ≤ limit := hcleared.balanced.bytes_le
    simp only [recordedBytes]
    rcases Builder.paid_start hcleared.balanced u.config.backtrace.chunkSize with
      ⟨b, m, hstart, hpaid⟩ | ⟨e, m, hstart, -⟩
    · simp only [hstart]
      split
      · have hle := hpaid.balanced.bytes_le
        omega
      · rename_i hfill
        -- What the builder holds when recording ends is charged, like all the rest
        have hfilled := paid_filling hfill hpaid
        have hle := hfilled.balanced.bytes_le
        omega
    · simp only [hstart]
      exact hleft

/-! ## Stores set up and filled in place -/

/-- Without its limit `Universe.allocateTrace` goes as under it, if `Universe.allocatePeak` fits. -/
theorem allocateTrace_withLimit
    (ht : t.Paid limit u.config.backtrace.chunkSize rest u.memory) (hfree : Heap.Unlimited free)
    (hpos : 0 < u.config.backtrace.chunkSize)
    (hroom : (u.withLimit free).allocatePeak t + rest ≤ limit) :
    (u.withLimit free).allocateTrace t =
      ((u.allocateTrace t).1, (u.allocateTrace t).2.1, (u.allocateTrace t).2.2.withLimit free) := by
  cases henabled : u.config.backtrace.enabled with
  | false =>
    simp only [allocateTrace, config_withLimit, henabled, Bool.not_false, if_true]
  | true =>
    simp only [allocateTrace, allocatePeak, config_withLimit, memory_withLimit, henabled,
      Bool.not_true, Bool.false_eq_true, if_false] at hroom ⊢
    have hstart := Builder.start_withLimit ht.balanced hfree hpos (by
      rw [Nat.add_right_comm]
      exact hroom)
    -- The store is begun as under the limit, and given to the throwable as it is
    rw [hstart]
    rcases Builder.start u.config.backtrace.chunkSize u.memory with ⟨e | b, m⟩
    · rfl
    · simp only [Builder.finish_withLimit, Throwable.setTrace_withLimit]
      rfl

/-- Under the limit, `Universe.allocatePeak` fits by itself. -/
theorem allocatePeak_le (ht : t.Paid limit u.config.backtrace.chunkSize rest u.memory) :
    u.allocatePeak t + rest ≤ limit := by
  have hheld : t.held + rest ≤ limit := ht.balanced.bytes_le
  unfold allocatePeak
  split
  · exact hheld
  · rcases Builder.paid_start ht.balanced u.config.backtrace.chunkSize with
      ⟨b, m, hstart, hpaid⟩ | ⟨e, m, hstart, -⟩
    · have hle := hpaid.balanced.bytes_le
      simp only [hstart, Memory.granted]
      omega
    · simp only [hstart, Memory.granted]
      exact hheld

/-- `Universe.refillStackTrace` takes no notice of the limit. -/
theorem refillStackTrace_withLimit (ht : t.PricedAt u.config.backtrace.chunkSize)
    (hpos : 0 < u.config.backtrace.chunkSize) (limit : Option Nat) (others : List ClassId)
    (thread : ManagedThread) :
    (u.withLimit limit).refillStackTrace others t thread =
      ((u.refillStackTrace others t thread).1, (u.refillStackTrace others t thread).2.1,
        (u.refillStackTrace others t thread).2.2.withLimit limit) := by
  cases henabled : u.config.backtrace.enabled with
  | false => simp only [refillStackTrace, config_withLimit, henabled, Bool.not_false, if_true]
  | true =>
    have henabled' : (u.withLimit limit).config.backtrace.enabled = true := henabled
    cases htrace : t.head.trace with
    | none =>
      simp only [refillStackTrace, config_withLimit, henabled, Bool.not_true, Bool.false_eq_true,
        if_false, Throwable.takeTrace, htrace]
    | some s =>
      have hsize : s.chunkSize = u.config.backtrace.chunkSize :=
        (ht t.head List.mem_cons_self s htrace).chunkSize_eq
      -- The store is filled without a look at the memory
      obtain ⟨r, b, hrefill⟩ : ∃ r b, ∀ m, refillAll u.program
          (u.owned (t.takeTrace.2.owners ++ others)) s.chunkSize (Walk.ofStack thread.stack).error
          (Builder.reopen s u.memory).1 m (Walk.ofStack thread.stack).activations = (r, b, m) :=
        exists_refillAll_eq _ (Nat.le_refl 0) (hsize ▸ hpos) rfl
      have hreopened : (Builder.reopen s (u.memory.withLimit limit)).2 =
          (Builder.reopen s u.memory).2.withLimit limit := by rw [Builder.reopen_withLimit]
      rw [refillStackTrace_of_trace henabled htrace (hrefill _),
        refillStackTrace_of_trace (u := u.withLimit limit) henabled' htrace (hrefill _)]
      simp only [memory_withLimit, hreopened, Builder.finish_withLimit]
      rfl

/-- `Universe.outOfMemoryError` takes no notice of the limit. -/
theorem outOfMemoryError_withLimit (hpool : ∀ t ∈ u.pool, t.PricedAt u.config.backtrace.chunkSize)
    (hpos : 0 < u.config.backtrace.chunkSize) (limit : Option Nat) (others : List ClassId)
    (thread : ManagedThread) (message : Option String) :
    (u.withLimit limit).outOfMemoryError others thread message =
      ((u.outOfMemoryError others thread message).1,
        (u.outOfMemoryError others thread message).2.withLimit limit) := by
  cases henabled : u.config.backtrace.enabled with
  | false => simp only [outOfMemoryError, config_withLimit, henabled, Bool.not_false, if_true]; rfl
  | true =>
    cases hleft : u.pool with
    | nil =>
      have hleft' : (u.withLimit limit).pool = [] := hleft
      rw [outOfMemoryError_of_nil hleft, outOfMemoryError_of_nil hleft']
      rfl
    | cons t pool =>
      have hleft' : (u.withLimit limit).pool = t :: pool := hleft
      -- The message has no price
      have ht : (t.modifyHead ({ · with message })).PricedAt u.config.backtrace.chunkSize :=
        (hpool t (hleft ▸ List.mem_cons_self)).sameTrace rfl
      have hrefill := refillStackTrace_withLimit (u := { u with pool }) ht hpos limit others thread
      simp only [withLimit] at hrefill
      simp only [outOfMemoryError, henabled, hleft, withLimit, Bool.not_true, Bool.false_eq_true,
        if_false, hrefill]

/-! ## The pool -/

/-- `Universe.prepareErrors` only adds to what the pool holds. -/
private theorem pooled_le_of_prepareErrors (count : Nat) {u v : Universe}
    (h : u.prepareErrors count = .ok v) : u.pooled ≤ v.pooled := by
  induction count generalizing u with
  | zero =>
    cases h
    exact Nat.le_refl _
  | succ count ih =>
    unfold prepareErrors at h
    split at h
    · cases h
    · rename_i t u₁ hallocate
      obtain ⟨memory, hworld⟩ := u.world_allocateTrace (Throwable.prepared u.outOfMemoryClass)
      rw [hallocate] at hworld
      cases hworld
      have hrest := ih h
      simp only [pooled, List.map_cons, List.sum_cons] at hrest ⊢
      omega

/-- `Universe.allocatePeak` of a throwable without a trace is what it holds in the end. -/
private theorem allocatePeak_of_untraced {t' : Throwable} {v : Universe}
    (htrace : t.head.trace = none) (h : u.allocateTrace t = (.ok (), t', v)) :
    u.allocatePeak t = t'.held := by
  cases henabled : u.config.backtrace.enabled with
  | false =>
    simp only [allocateTrace, allocatePeak, henabled, Bool.not_false, if_true] at h ⊢
    cases h
    rfl
  | true =>
    simp only [allocateTrace, allocatePeak, henabled, Bool.not_true, Bool.false_eq_true,
      if_false] at h ⊢
    rcases hstart : Builder.start u.config.backtrace.chunkSize u.memory with ⟨e | b, m⟩
    · rw [hstart] at h
      cases h
    · rw [hstart] at h
      have hnew : b.reuse = false := by
        rcases Builder.start_cases hstart with ⟨e, he⟩ | ⟨-, reservation, hb⟩
        · cases he
        · cases hb
          rfl
      simp only at h
      cases h
      rw [Throwable.held_of_untraced htrace, Throwable.held_of_traced (s := (b.finish m).1) rfl,
        Builder.finish_of_new hnew, Nat.add_comm]
      rfl

/-- Without its limit `Universe.prepareErrors` goes as under it, if what the pool holds in the end fits. -/
private theorem prepareErrors_withLimit (count : Nat) {u v : Universe} (hu : u.Balanced limit rest)
    (hfree : Heap.Unlimited free) (hpos : 0 < u.config.backtrace.chunkSize)
    (h : (u.withLimit free).prepareErrors count = .ok v) (hroom : v.pooled + rest ≤ limit) :
    ∃ v', v = v'.withLimit free ∧ u.prepareErrors count = .ok v' := by
  induction count generalizing u with
  | zero =>
    cases h
    exact ⟨u, rfl, rfl⟩
  | succ count ih =>
    unfold prepareErrors at h
    split at h
    · cases h
    · rename_i t u₁ hallocate
      have hallocate : (u.withLimit free).allocateTrace (Throwable.prepared u.outOfMemoryClass) =
        (.ok (), t, u₁) := hallocate
      -- The new error stays in the pool, so what it takes fits along with the rest
      have hpeak := allocatePeak_of_untraced rfl hallocate
      have hpooled := pooled_le_of_prepareErrors count h
      have hgrown : u₁.pool = u.pool := by
        obtain ⟨memory, hworld⟩ :=
          (u.withLimit free).world_allocateTrace (Throwable.prepared u.outOfMemoryClass)
        rw [hallocate] at hworld
        cases hworld
        rfl
      have hpaid : (Throwable.prepared u.outOfMemoryClass).Paid limit
          u.config.backtrace.chunkSize (u.pooled + rest) u.memory := by
        refine ⟨hu.balanced.of_eq ?_, pricedAt_prepared _ _⟩
        rw [held_prepared, Nat.zero_add]
      have hfits : t.held + u.pooled ≤ v.pooled := by
        simpa only [pooled, hgrown, List.map_cons, List.sum_cons] using hpooled
      have hsame := allocateTrace_withLimit hpaid hfree hpos (by omega)
      rcases hlimited : u.allocateTrace (Throwable.prepared u.outOfMemoryClass) with ⟨r, t', w⟩
      rw [hallocate, hlimited] at hsame
      cases hsame
      obtain ⟨memory, hworld⟩ := u.world_allocateTrace (Throwable.prepared u.outOfMemoryClass)
      have hconfig : w.config = u.config := by
        rw [hlimited] at hworld
        cases hworld
        rfl
      obtain ⟨v', hv, hprepared⟩ := ih (hu.prepare hlimited) (hconfig ▸ hpos) h
      refine ⟨v', hv, ?_⟩
      simp only [prepareErrors, hlimited]
      exact hprepared

/-- Without a limit `Universe.genesis` goes as under one, if what the pool holds fits. -/
theorem genesis_withLimit {config : RuntimeConfig} (hfree : Heap.Unlimited config.heap.limitBytes)
    (hword : limit < maxWord) (h : genesis config = .ok u) (hroom : u.pooled ≤ limit) :
    ∃ v : Universe, u = v.withLimit config.heap.limitBytes ∧ v.Balanced limit 0 ∧
      0 < v.config.backtrace.chunkSize := by
  have hbooted : ((boot config).withLimit (some limit)).Balanced limit 0 :=
    ⟨⟨rfl, hword, rfl, Nat.zero_le _⟩, nofun⟩
  have hlifted :
      ((boot config).withLimit (some limit)).withLimit config.heap.limitBytes = boot config := rfl
  unfold genesis at h
  split at h
  · cases h
  · rename_i hvalid
    have hpos := chunkSize_pos_of_validate hvalid
    split at h
    · cases h
    · simp only at h
      split at h
      · rw [← hlifted] at h
        obtain ⟨v, rfl, hv⟩ := prepareErrors_withLimit _ hbooted hfree hpos h hroom
        refine ⟨v, rfl, balanced_prepareErrors _ hbooted hv, ?_⟩
        rw [config_prepareErrors _ hv]
        exact hpos
      · cases h
        exact ⟨_, hlifted.symm, hbooted, hpos⟩

end Universe

end StackTrace
