import StackTrace.Proofs.Memory.Balance
import StackTrace.Proofs.Store.Charges
import StackTrace.Throwable

/-!
# The books of a store

A builder's store holds what the builder has charged, whether the store is new or used again, and
however its operations end (`Builder.Paid`).  A used store keeps the chunks that the new trace does not
reach, and goes on holding them.  What a finished store holds passes to the throwable that the trace is
published in (`Throwable.Paid`), which gives back what it held before.

## Key results

- `Builder.Paid.push`, `Builder.Paid.markHiddenTop`: every operation keeps the books
- `Builder.Paid.finish`, `Builder.Paid.abandon`: what becomes of all that was charged
- `Throwable.Paid.setTrace`: a trace takes the place of another
-/

namespace StackTrace

/-- `Chunk.allocate` charges what it hands out, or nothing. -/
private theorem Chunk.charges_allocate (capacity : Nat) :
    Memory.Charges (allocate capacity) (fresh capacity) (heapBytes capacity) := by
  apply (Memory.charges_allocate (payloadBytes capacity)).map (Chunk.mk capacity #[] none)
  intro m
  unfold allocate
  split <;> simp_all

namespace Store

/-- `Store.allocate` charges the one chunk of the store, or nothing. -/
private theorem charges_allocate (chunkSize : Nat) :
    Memory.Charges (allocate chunkSize) ⟨chunkSize, #[Chunk.fresh chunkSize], none⟩
      (Chunk.heapBytes chunkSize) := by
  by_cases hzero : chunkSize = 0
  · intro limit rest m hm
    exact .inr ⟨_, m, if_pos hzero, hm⟩
  · apply (Chunk.charges_allocate chunkSize).map fun head => (⟨chunkSize, #[head], none⟩ : Store)
    intro m
    simp only [allocate, hzero, if_false]
    split <;> simp_all

/-- `Priced`, with chunks of `chunkSize` slots. -/
structure PricedAt (chunkSize : Nat) (s : Store) : Prop extends s.Priced where
  chunkSize_eq : s.chunkSize = chunkSize

/-- What a store costs whose chunks have so many slots: thirty bytes a slot and thirty-two a chunk, in all
    chunks that it has, and seventeen for a marker. -/
def price (chunkSize : Nat) (s : Store) : Nat :=
  s.chunks.size * (30 * chunkSize + 32) + if s.hasHiddenTop then 17 else 0

/-- A store that holds less than the largest word holds its `Store.price`. -/
private theorem PricedAt.held_eq_price {chunkSize : Nat} {s : Store} (h : s.PricedAt chunkSize)
    (hword : s.held < maxWord) : s.held = s.price chunkSize := by
  have hmarker : objectBytes 1 = 17 := by decide
  have hchunk : Chunk.heapBytes s.chunkSize = min (30 * chunkSize + 32) maxWord := by
    rw [h.chunkSize_eq]
    simp only [Chunk.heapBytes, objectBytes, Chunk.payloadBytes, saturatingAdd, objectHeaderBytes]
    omega
  have hheld := h.held_eq
  -- Below the largest word no price is cut off, so each chunk costs what its slots do
  have hchunks : s.chunks.size * Chunk.heapBytes s.chunkSize =
      s.chunks.size * (30 * chunkSize + 32) := by
    rcases Nat.eq_zero_or_pos s.chunks.size with hnone | hpos
    · simp [hnone]
    · -- A chunk whose price is cut off at the largest word would be too much by itself
      have hone : Chunk.heapBytes s.chunkSize ≤ s.chunks.size * Chunk.heapBytes s.chunkSize :=
        Nat.le_mul_of_pos_left _ hpos
      rw [show Chunk.heapBytes s.chunkSize = 30 * chunkSize + 32 by omega]
  rw [hheld, hchunks, hmarker, price]
  cases s.hasHiddenTop with
  | true => rfl
  | false => rfl

/-- Stores that hold less than the largest word together hold the sum of their `Store.price`. -/
theorem sum_held_eq_sum_price {chunkSize : Nat} {ss : List Store}
    (hpriced : ∀ s ∈ ss, s.PricedAt chunkSize) (hword : (ss.map held).sum < maxWord) :
    (ss.map held).sum = (ss.map (price chunkSize)).sum := by
  induction ss with
  | nil => rfl
  | cons s ss ih =>
    rw [List.map_cons, List.sum_cons] at hword
    rw [List.forall_mem_cons] at hpriced
    rw [List.map_cons, List.sum_cons, List.map_cons, List.sum_cons, ih hpriced.2 (by omega),
      hpriced.1.held_eq_price (by omega)]

end Store

/-! ## Builders -/

namespace Builder

/-- The store of a builder holds what is charged, but for `rest` bytes that others hold. -/
structure Paid (limit chunkSize rest : Nat) (b : Builder) (m : Memory) : Prop where
  balanced : m.heap.Balanced limit (b.store.held + rest)
  priced : b.store.PricedAt chunkSize

section Paid

variable {limit chunkSize rest : Nat} {b : Builder} {m : Memory}

/-- What neither adds a chunk nor sets the marker keeps `Builder.Paid`. -/
private theorem Paid.same (h : b.Paid limit chunkSize rest m) {b' : Builder} (hpriced : b'.store.Priced)
    (hsize : b'.store.chunks.size = b.store.chunks.size)
    (hchunkSize : b'.store.chunkSize = b.store.chunkSize)
    (hhidden : b'.store.hiddenTop = b.store.hiddenTop) : b'.Paid limit chunkSize rest m := by
  have hheld := (h.priced.grow hpriced (n := 0) (by simpa using hsize) hchunkSize hhidden).1
  refine ⟨h.balanced.of_eq ?_, hpriced, hchunkSize.trans h.priced.chunkSize_eq⟩
  rw [hheld]
  omega

/-- `Builder.write` keeps `Builder.Paid`: a slot has been paid for along with its chunk. -/
private theorem Paid.write (h : b.Paid limit chunkSize rest m) (f : StoredFrame) :
    (b.write f).Paid limit chunkSize rest m :=
  h.same (priced_write h.priced.toPriced f) (by simp [write_eq]) rfl rfl

/-- `Builder.advance` keeps `Builder.Paid`. -/
private theorem Paid.advance (h : b.Paid limit chunkSize rest m) (id : Nat) :
    (b.advance id).Paid limit chunkSize rest m :=
  h.same (priced_advance h.priced.toPriced id) (by simp [advance_eq]) rfl rfl

/-- `Builder.expand` keeps `Builder.Paid`: a further chunk is paid for if it is a new one. -/
private theorem Paid.expand (h : b.Paid limit chunkSize rest m) :
    (b.expand m).2.1.Paid limit chunkSize rest (b.expand m).2.2 := by
  unfold Builder.expand
  split
  -- A chunk that is linked already has been paid for
  · exact h.advance _
  -- A new chunk is charged, or it is refused and nothing is
  · rcases ((Chunk.charges_allocate b.store.chunkSize).paused b.verifier) h.balanced with
      ⟨m', hpaused, hm'⟩ | ⟨e, m', hpaused, hm'⟩
    · simp only at hpaused
      simp only [hpaused]
      have hpriced : (b.addChunk (.fresh b.store.chunkSize)).store.Priced := h.priced.push
      have hsize : (b.addChunk (.fresh b.store.chunkSize)).store.chunks.size =
          b.store.chunks.size + 1 := by simp [addChunk_eq]
      obtain ⟨hheld, -⟩ := h.priced.grow hpriced hsize rfl rfl
      have hadded : (b.addChunk (.fresh b.store.chunkSize)).Paid limit chunkSize rest m' := by
        refine ⟨hm'.of_eq ?_, hpriced, h.priced.chunkSize_eq⟩
        rw [hheld]
        omega
      exact hadded.advance _
    · simp only at hpaused
      simp only [hpaused]
      exact ⟨hm', h.priced⟩

/-- `Builder.push` keeps `Builder.Paid`, whether it succeeds or not. -/
theorem Paid.push (h : b.Paid limit chunkSize rest m) (holder : Class) (method : Method)
    (bci : Int) : (b.push m holder method bci).2.1.Paid limit chunkSize rest
      (b.push m holder method bci).2.2 := by
  cases hfits : Location.fits bci with
  | false =>
    rw [push_of_not_fits hfits]
    exact h
  | true =>
    obtain ⟨f, -, hpush⟩ := push_of_fits hfits holder method
    have hexpanded := h.expand
    rw [hpush]
    split
    · exact h.write f
    -- The chunk is full, and a further one is given or refused
    · split
      · rename_i hexpand
        rw [hexpand] at hexpanded
        exact hexpanded
      · rename_i hexpand
        rw [hexpand] at hexpanded
        exact hexpanded.write f

/-- `Builder.markHiddenTop` keeps `Builder.Paid`: the marker is paid for when it is set, and that is
    once, for only a store without one is marked. -/
theorem Paid.markHiddenTop (h : b.Paid limit chunkSize rest m) :
    (b.markHiddenTop m).2.1.Paid limit chunkSize rest (b.markHiddenTop m).2.2 := by
  unfold Builder.markHiddenTop
  cases hhidden : b.store.hasHiddenTop with
  | true =>
    simp only [if_true]
    exact h
  | false =>
    simp only [Bool.false_eq_true, if_false]
    -- The marker is charged, or it is refused and nothing is
    rcases ((Memory.charges_box true).paused b.verifier) h.balanced with
      ⟨m', hpaused, hm'⟩ | ⟨e, m', hpaused, hm'⟩
    · simp only at hpaused
      simp only [hpaused]
      refine ⟨hm'.of_eq ?_, h.priced.mark, h.priced.chunkSize_eq⟩
      rw [h.priced.mark.held_eq, h.priced.held_eq, hhidden]
      simp only [Store.hasHiddenTop, Option.map_some, Option.getD_some, Bool.toNat_true,
        Bool.toNat_false]
      omega
    · simp only at hpaused
      simp only [hpaused]
      exact ⟨hm', h.priced⟩

/-- A new store by `Builder.start` is paid for; if it is refused, nothing is charged. -/
theorem paid_start (hm : m.heap.Balanced limit rest) (chunkSize : Nat) :
    (∃ b m', start chunkSize m = (.ok b, m') ∧ b.Paid limit chunkSize rest m') ∨
    (∃ e m', start chunkSize m = (.error e, m') ∧ m'.heap.Balanced limit rest) := by
  have hopened : (inScope m).heap.Balanced limit rest := hm
  rcases ((Store.charges_allocate chunkSize).paused m.safepoints.openScope.1) hopened with
    ⟨m', hpaused, hm'⟩ | ⟨e, m', hpaused, hm'⟩
  · simp only [inScope] at hpaused
    refine .inl ⟨initial chunkSize, m', by simp only [start, hpaused]; rfl, ?_, ⟨?_, ?_⟩, rfl⟩
    · rw [held_initial]
      exact hm'
    · simp [initial, Chunk.fresh]
    · simp [initial]
  · simp only [inScope] at hpaused
    refine .inr ⟨e.mapError .outOfMemory,
      { m' with safepoints := m'.safepoints.close m.safepoints.openScope.1 }, ?_, hm'⟩
    simp only [start, hpaused]

/-- A store that `Builder.reopen` opens again holds its chunks; its marker is given back. -/
theorem paid_reopen {s : Store} (hs : s.PricedAt chunkSize)
    (hm : m.heap.Balanced limit (s.held + rest)) :
    (reopen s m).1.Paid limit chunkSize rest (reopen s m).2 := by
  have hmarker : s.held = Heap.total (s.hiddenTop.map (·.reservation)).toList +
      Store.held { s with hiddenTop := none } := by
    simp only [Store.held, Store.reservations, Heap.total_append, Option.map_none,
      Option.toList_none, Heap.total_nil]
    omega
  refine ⟨(hm.of_eq ?_).releaseAll, ⟨hs.chunks, fun box hbox => ?_⟩, hs.chunkSize_eq⟩
  · rw [hmarker]
    simp only [reopen]
    omega
  · cases hbox

/-- After `Builder.finish`, whatever a used store holds that is not linked any more, the finished store
    holds, too. -/
theorem Paid.finish (h : b.Paid limit chunkSize rest m) :
    (b.finish m).2.heap.Balanced limit ((b.finish m).1.held + rest) ∧
      (b.finish m).1.PricedAt chunkSize := by
  have hpriced : (b.finish m).1.Priced := by
    cases hreuse : b.reuse with
    | true =>
      rw [finish_of_reuse hreuse]
      exact h.priced.modify b.current fun _ => rfl
    | false =>
      rw [finish_of_new hreuse]
      exact h.priced.toPriced
  -- Chunks that are cut off stay in the arena, and so they stay paid for
  have hsize : (b.finish m).1.chunks.size = b.store.chunks.size + 0 := size_chunks_finish b m
  have hheld := (h.priced.grow hpriced hsize (chunkSize_finish b m) (hiddenTop_finish b m)).1
  refine ⟨?_, hpriced, (chunkSize_finish b m).trans h.priced.chunkSize_eq⟩
  rw [snd_finish]
  refine h.balanced.of_eq ?_
  rw [hheld]
  omega

/-- `Builder.abandon` gives back all that the builder has charged. -/
theorem Paid.abandon (h : b.Paid limit chunkSize rest m) :
    (b.abandon m).heap.Balanced limit rest :=
  h.balanced.releaseAll

end Paid

end Builder

/-! ## Throwables -/

namespace Throwable

/-- The bytes that `Condition.reservations` of a throwable and of its causes hold. -/
def held (t : Throwable) : Nat := Heap.total t.reservations

/-- The traces of a throwable and of its causes. -/
def stores (t : Throwable) : List Store := t.chain.filterMap (·.trace)

/-- `Store.PricedAt` holds of all traces of a throwable. -/
def PricedAt (chunkSize : Nat) (t : Throwable) : Prop :=
  ∀ c ∈ t.chain, ∀ s, c.trace = some s → s.PricedAt chunkSize

/-- A throwable holds what is charged, but for `rest` bytes that others hold. -/
structure Paid (limit chunkSize rest : Nat) (t : Throwable) (m : Memory) : Prop where
  balanced : m.heap.Balanced limit (t.held + rest)
  priced : t.PricedAt chunkSize

variable {limit chunkSize rest : Nat} {t : Throwable} {m : Memory}

/-- All stores of a `Throwable.PricedAt` throwable are `Store.PricedAt`. -/
theorem PricedAt.stores (ht : t.PricedAt chunkSize) : ∀ s ∈ t.stores, s.PricedAt chunkSize := by
  intro s hs
  obtain ⟨c, hc, htrace⟩ := List.mem_filterMap.mp hs
  exact ht c hc s htrace

/-- `Throwable.held` is the sum of what its stores hold. -/
theorem held_eq_sum (t : Throwable) : t.held = (t.stores.map Store.held).sum := by
  have hchain : ∀ cs : List Condition, Heap.total (cs.flatMap Condition.reservations) =
      ((cs.filterMap (·.trace)).map Store.held).sum := by
    intro cs
    induction cs with
    | nil => rfl
    | cons c cs ih =>
      rw [List.flatMap_cons, Heap.total_append, ih, List.filterMap_cons]
      cases htrace : c.trace with
      | none => simp [Condition.reservations, htrace]
      | some s => simp [Condition.reservations, htrace, Store.held]
  exact hchain t.chain

/-- `Throwable.held` is what the head holds and what the causes hold. -/
theorem held_eq (t : Throwable) : t.held = Heap.total t.head.reservations +
    Heap.total (t.causes.flatMap Condition.reservations) := by
  rw [held, reservations, chain, List.flatMap_cons, Heap.total_append]

/-- `Throwable.held` without a trace is what the causes hold. -/
theorem held_of_untraced (h : t.head.trace = none) :
    t.held = Heap.total (t.causes.flatMap Condition.reservations) := by
  rw [held_eq, Condition.reservations, h]
  simp

/-- `Throwable.held` with a trace is what its store holds and what the causes hold. -/
theorem held_of_traced {s : Store} (h : t.head.trace = some s) :
    t.held = s.held + Heap.total (t.causes.flatMap Condition.reservations) := by
  rw [held_eq, Condition.reservations, h]
  rfl

/-- `Throwable.withCause` puts all that the cause holds in the place of what the former causes held. -/
theorem held_withCause (t inner : Throwable) :
    (t.withCause inner).held = Heap.total t.head.reservations + inner.held :=
  held_eq (t.withCause inner)

/-- `Throwable.PricedAt` of a throwable that gets another trace of its own, or none, and keeps its
    causes. -/
private theorem PricedAt.modifyHead (ht : t.PricedAt chunkSize) {g : Condition → Condition}
    (hg : ∀ s, (g t.head).trace = some s → s.PricedAt chunkSize) :
    (t.modifyHead g).PricedAt chunkSize := by
  intro c hc s hs
  rcases List.mem_cons.mp hc with rfl | hc
  · exact hg s hs
  · exact ht c (List.mem_cons_of_mem _ hc) s hs

/-- A change to anything but the trace keeps `Throwable.PricedAt`. -/
theorem PricedAt.sameTrace (ht : t.PricedAt chunkSize) {g : Condition → Condition}
    (hg : (g t.head).trace = t.head.trace) : (t.modifyHead g).PricedAt chunkSize := by
  apply ht.modifyHead
  intro s hs
  rw [hg] at hs
  exact ht t.head List.mem_cons_self s hs

/-- Giving up the trace keeps `Throwable.PricedAt`. -/
theorem PricedAt.untraced (ht : t.PricedAt chunkSize) {g : Condition → Condition}
    (hg : (g t.head).trace = none) : (t.modifyHead g).PricedAt chunkSize := by
  apply ht.modifyHead
  intro s hs
  rw [hg] at hs
  cases hs

/-- A condition without a trace or causes is `Throwable.PricedAt` any size. -/
theorem pricedAt_of_untraced {c : Condition} (hc : c.trace = none) (chunkSize : Nat) :
    PricedAt chunkSize ⟨c, []⟩ := by
  intro c' hc' s hs
  rw [List.mem_singleton.mp hc', hc] at hs
  cases hs

/-- `Throwable.withCause` keeps `Throwable.PricedAt`. -/
theorem PricedAt.withCause (ht : t.PricedAt chunkSize) {inner : Throwable}
    (hinner : inner.PricedAt chunkSize) : (t.withCause inner).PricedAt chunkSize := by
  intro c hc s hs
  rcases List.mem_cons.mp hc with rfl | hc
  · exact ht _ List.mem_cons_self s hs
  · exact hinner c hc s hs

/-- `Throwable.clearTrace` gives back what it gives up. -/
theorem Paid.clearTrace (h : t.Paid limit chunkSize rest m) :
    (t.clearTrace m).1.Paid limit chunkSize rest (t.clearTrace m).2 := by
  refine ⟨Heap.Balanced.releaseAll (h.balanced.of_eq ?_), h.priced.untraced rfl⟩
  rw [held_eq, held_of_untraced (t := (t.clearTrace m).1) rfl]
  simp only [Throwable.clearTrace, Throwable.modifyHead]
  omega

/-- `Throwable.setTrace` puts a new trace in the place of the one before, which is given back. -/
theorem Paid.setTrace {s : Store} (h : t.Paid limit chunkSize (s.held + rest) m)
    (hs : s.PricedAt chunkSize) (depth : Nat) :
    (t.setTrace s depth m).1.Paid limit chunkSize rest (t.setTrace s depth m).2 := by
  refine ⟨Heap.Balanced.releaseAll (h.balanced.of_eq ?_), h.priced.modifyHead fun s' hs' => ?_⟩
  · rw [held_eq, held_of_traced (t := (t.setTrace s depth m).1) rfl]
    simp only [Throwable.setTrace, Throwable.modifyHead]
    omega
  · cases hs'
    exact hs

end Throwable

end StackTrace
