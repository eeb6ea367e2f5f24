import StackTrace.Proofs.Memory.NeverRefuses
import StackTrace.Proofs.Store.Building

/-!
# What filling a store costs

On memory that never refuses, every operation of a builder succeeds whose bytecode index can be
stored.  A chunk is charged only when the cursor moves behind the last one in the arena, and a marker
only once.

## Key results

- `Builder.start_of_neverRefuses`: a new store costs one chunk
- `Builder.Spent.push`, `Builder.Spent.markHiddenTop`: the books are kept by every operation
-/

namespace StackTrace

/-- The bytes that a chunk takes on the heap. -/
def Chunk.heapBytes (capacity : Nat) : Nat := objectBytes (payloadBytes capacity)

/-- `Chunk.allocate` on memory that never refuses. -/
theorem Chunk.allocate_of_neverRefuses {m : Memory} (hm : m.NeverRefuses) (capacity : Nat) :
    Chunk.allocate capacity m =
      (.ok ⟨capacity, #[], none, ⟨heapBytes capacity⟩⟩, m.charged 1 (heapBytes capacity)) := by
  simp only [Chunk.allocate, Memory.allocate_of_neverRefuses hm, heapBytes]

/-- `Store.allocate` on memory that never refuses. -/
private theorem Store.allocate_of_neverRefuses {m : Memory} (hm : m.NeverRefuses) {chunkSize : Nat}
    (hpos : 0 < chunkSize) : Store.allocate chunkSize m =
      (.ok ⟨chunkSize, #[⟨chunkSize, #[], none, ⟨Chunk.heapBytes chunkSize⟩⟩], none⟩,
        m.charged 1 (Chunk.heapBytes chunkSize)) := by
  simp only [Store.allocate, Nat.ne_of_gt hpos, if_false, Chunk.allocate_of_neverRefuses hm]

namespace Builder

/-- `Builder.start` on memory that never refuses has paid for its one chunk. -/
theorem start_of_neverRefuses {chunkSize : Nat} (hpos : 0 < chunkSize) {m : Memory}
    (hm : m.NeverRefuses) : ∃ b, start chunkSize m =
      (.ok b, Memory.charged { m with safepoints := m.safepoints.openScope.2 } 1
        (Chunk.heapBytes chunkSize)) := by
  have hstore := Memory.paused_of_charges hm.openScope m.safepoints.openScope.1
    fun _ hm' => Store.allocate_of_neverRefuses hm' hpos
  simp only [start, hstore]
  exact ⟨_, rfl⟩

/-- A builder that fills a store again by `Builder.reopen` finds memory that never refuses, too. -/
theorem neverRefuses_reopen (s : Store) {m : Memory} (hm : m.NeverRefuses) :
    (reopen s m).2.NeverRefusesInScope :=
  (hm.releaseAll (s.hiddenTop.map BoxedBool.reservation).toList).openScope

/-- On memory that never refuses `Builder.expand` always finds a further chunk, and only one that was
    not there before is charged. -/
private theorem Shape.expand_of_neverRefuses {b : Builder} {full : List Chunk} {last : Chunk}
    {spare : List Chunk} {m : Memory} (h : b.Shape full last spare)
    (hend : b.reuse = false → b.AtEnd last spare) (hm : m.NeverRefusesInScope) :
    (b.current + 1 < b.store.chunks.size ∧
      b.expand m = (.ok (), b.advance (b.current + 1), m)) ∨
    (b.store.chunks.size = b.current + 1 ∧ ∃ c, b.expand m =
      (.ok (), (b.addChunk c).advance (b.current + 1),
        m.charged 1 (Chunk.heapBytes b.store.chunkSize))) := by
  have hsize := h.size_eq
  have hcurrent := h.current_eq
  cases hused : b.reuse && decide (b.current + 1 < b.store.chunks.size) with
  | true =>
    obtain ⟨-, hlt⟩ := Bool.and_eq_true_iff.mp hused
    refine .inl ⟨of_decide_eq_true hlt, ?_⟩
    simp only [expand, hused, if_true]
  | false =>
    -- No chunk is left behind the current one, on a new store or a used one
    have hlast : b.store.chunks.size = b.current + 1 := by
      cases hreuse : b.reuse with
      | false =>
        rw [(hend hreuse).spare_eq, List.length_nil] at hsize
        omega
      | true =>
        rw [hreuse, Bool.true_and, decide_eq_false_iff_not] at hused
        omega
    have hchunk := Memory.paused_of_charges hm b.verifier
      fun _ hm' => Chunk.allocate_of_neverRefuses hm' b.store.chunkSize
    refine .inr ⟨hlast, ?_⟩
    simp only [expand, hused, Bool.false_eq_true, if_false, hchunk]
    rw [hlast]
    exact ⟨_, rfl⟩

/-- The books of a builder that has begun with `n` chunks and memory `m₀`: it has used the chunks it
    began with before it added any, and has paid for the added ones and for its marker. -/
structure Spent (n : Nat) (m₀ : Memory) (b : Builder) (m : Memory) : Prop where
  size_eq : b.store.chunks.size = max n (b.current + 1)
  memory_eq : m = m₀.charged (b.store.chunks.size - n + b.store.hasHiddenTop.toNat)
    ((b.store.chunks.size - n) * Chunk.heapBytes b.store.chunkSize +
      b.store.hasHiddenTop.toNat * objectBytes 1)

/-- A builder that has not been used yet has paid for nothing by `Builder.Spent`. -/
theorem Blank.spent {b : Builder} (hb : b.Blank) {m : Memory} (hm : m.NeverRefusesInScope) :
    Spent b.store.chunks.size m b m := by
  obtain ⟨full, last, spare, hshape, -⟩ := hb.sound
  have hsize := hshape.size_eq
  have hcurrent := hshape.current_eq
  refine ⟨by omega, ?_⟩
  simp only [Store.hasHiddenTop, hb.hiddenTop_eq, Option.map_none, Option.getD_none,
    Bool.toNat_false, Nat.sub_self, Nat.zero_mul, Nat.add_zero, Memory.charged_zero hm.heap.used_le]

namespace Spent

variable {n : Nat} {m₀ : Memory} {b : Builder} {m : Memory}

/-- Memory that never refuses has been left so by what was `Builder.Spent`. -/
private theorem neverRefuses (h : Spent n m₀ b m) (hm₀ : m₀.NeverRefusesInScope) :
    m.NeverRefusesInScope := by
  rw [h.memory_eq]
  exact hm₀.charged _ _

/-- `Builder.Spent` is kept by a step that adds no chunk. -/
private theorem reuse (h : Spent n m₀ b m) {b' : Builder}
    (hsize : b'.store.chunks.size = b.store.chunks.size) (hle : b'.current + 1 ≤ b'.store.chunks.size)
    (hge : b.current ≤ b'.current) (hchunkSize : b'.store.chunkSize = b.store.chunkSize)
    (hhidden : b'.store.hasHiddenTop = b.store.hasHiddenTop) : Spent n m₀ b' m := by
  have hmax := h.size_eq
  refine ⟨by omega, ?_⟩
  rw [hsize, hchunkSize, hhidden]
  exact h.memory_eq

/-- `Builder.Spent` is kept by a step that adds a chunk and moves into it. -/
private theorem add (h : Spent n m₀ b m) {b' : Builder}
    (hlast : b.store.chunks.size = b.current + 1)
    (hsize : b'.store.chunks.size = b.store.chunks.size + 1) (hcurrent : b'.current = b.current + 1)
    (hchunkSize : b'.store.chunkSize = b.store.chunkSize)
    (hhidden : b'.store.hasHiddenTop = b.store.hasHiddenTop) :
    Spent n m₀ b' (m.charged 1 (Chunk.heapBytes b.store.chunkSize)) := by
  have hmax := h.size_eq
  refine ⟨by omega, ?_⟩
  have hadded : b'.store.chunks.size - n = b.store.chunks.size - n + 1 := by omega
  rw [h.memory_eq, Memory.charged_charged, hadded, hchunkSize, hhidden, Nat.succ_mul,
    Nat.add_right_comm, Nat.add_right_comm (_ * _)]

/-- With memory that never refuses `Builder.push` succeeds for every index that a location can hold. -/
theorem push (h : Spent n m₀ b m) (hm₀ : m₀.NeverRefusesInScope) (hb : b.Sound) (holder : Class)
    (method : Method) {bci : Int} (hfits : Location.fits bci = true) :
    ∃ b' m', b.push m holder method bci = (.ok (), b', m') ∧ Spent n m₀ b' m' := by
  obtain ⟨f, -, hpush⟩ := push_of_fits hfits holder method
  obtain ⟨full, last, spare, hshape, -, hend⟩ := hb
  have hsize := hshape.size_eq
  have hcurrent := hshape.current_eq
  by_cases hslot : b.slot < b.store.chunkSize
  · -- The current chunk has a slot
    refine ⟨b.write f, m, by rw [hpush, if_pos hslot], h.reuse ?_ ?_ (Nat.le_refl _) rfl rfl⟩
    · rw [write_eq, Array.size_modify]
    · rw [write_eq, Array.size_modify]
      simp only
      omega
  · rcases hshape.expand_of_neverRefuses hend (h.neverRefuses hm₀) with
      ⟨hlt, hexpand⟩ | ⟨hlast, c, hexpand⟩
    · -- The next chunk is in the arena already
      refine ⟨(b.advance (b.current + 1)).write f, m, by rw [hpush, if_neg hslot, hexpand],
        h.reuse ?_ ?_ (Nat.le_succ _) rfl rfl⟩
      · rw [write_eq, advance_eq, Array.size_modify, Array.size_modify]
      · rw [write_eq, advance_eq, Array.size_modify, Array.size_modify]
        exact hlt
    · -- A chunk is added, and paid for
      refine ⟨((b.addChunk c).advance (b.current + 1)).write f, _,
        by rw [hpush, if_neg hslot, hexpand], h.add hlast ?_ rfl rfl rfl⟩
      rw [write_eq, advance_eq, addChunk_eq, Array.size_modify, Array.size_modify, Array.size_push]

/-- With memory that never refuses `Builder.markHiddenTop` succeeds. -/
theorem markHiddenTop (h : Spent n m₀ b m) (hm₀ : m₀.NeverRefusesInScope) :
    ∃ b' m', b.markHiddenTop m = (.ok (), b', m') ∧ Spent n m₀ b' m' := by
  cases hhidden : b.store.hasHiddenTop with
  | true => exact ⟨b, m, by simp only [Builder.markHiddenTop, hhidden, if_true], h⟩
  | false =>
    have hbox := Memory.paused_of_charges (h.neverRefuses hm₀) b.verifier
      fun _ hm' => Memory.box_of_neverRefuses hm' true
    refine ⟨{ b with store := { b.store with hiddenTop := some ⟨true, ⟨objectBytes 1⟩⟩ } },
      m.charged 1 (objectBytes 1), ?_, ⟨h.size_eq, ?_⟩⟩
    · simp only [Builder.markHiddenTop, hhidden, Bool.false_eq_true, if_false, hbox]
    rw [h.memory_eq, Memory.charged_charged, hhidden]
    simp only [Store.hasHiddenTop, Option.map_some, Option.getD_some, Bool.toNat_false,
      Bool.toNat_true, Nat.zero_mul, Nat.one_mul, Nat.add_zero]

end Spent

end Builder

end StackTrace
