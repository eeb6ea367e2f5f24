import StackTrace.Proofs.Memory.Limits
import StackTrace.Proofs.Store.Costs
import StackTrace.Proofs.Store.RoundTrip

/-!
# What a store under construction has charged

Whatever a builder on a new store has charged, its store holds: one reservation for each chunk and one
for the marker (`Memory.holding`).  An operation of the builder fails for a reason of its own, or
costs nothing, or asks for one object, and the memory it runs on decides about nothing but whether
that object is granted (`Builder.Costs`).

It follows that what an operation does on one heap it does on every other with enough left, and that a
refusal leaves a builder whose store holds all that was charged (`Builder.Budgeted`).

## Key results

- `Builder.Fresh.push`, `Builder.Fresh.markHiddenTop`: what the operations of a builder cost
- `Builder.Costs.led`, `Builder.Costs.led_andThen`: an operation under a limit, and what follows it
- `Builder.used_abandon`: giving up a builder gives back all it has charged
-/

namespace StackTrace

/-! ### The prices -/

/-- A chunk as `Chunk.allocate` makes it. -/
def Chunk.fresh (capacity : Nat) : Chunk := ⟨capacity, #[], none, ⟨heapBytes capacity⟩⟩

/-- `Chunk.allocate` asks for the bytes of one chunk. -/
theorem Chunk.asks_allocate (capacity : Nat) :
    Memory.Asks (allocate capacity) (fresh capacity) (heapBytes capacity) := by
  apply (Memory.asks_allocate (payloadBytes capacity)).map (Chunk.mk capacity #[] none)
  intro m
  unfold allocate
  split <;> simp_all

namespace Store

/-- `Store.allocate` asks for the bytes of one chunk. -/
private theorem asks_allocate {chunkSize : Nat} (hpos : 0 < chunkSize) :
    Memory.Asks (allocate chunkSize) ⟨chunkSize, #[Chunk.fresh chunkSize], none⟩
      (Chunk.heapBytes chunkSize) := by
  have hne : chunkSize ≠ 0 := by omega
  apply (Chunk.asks_allocate chunkSize).map fun head => (⟨chunkSize, #[head], none⟩ : Store)
  intro m
  simp only [allocate, hne, if_false]
  split <;> simp_all

/-- The bytes that `Store.reservations` hold. -/
def held (s : Store) : Nat := Heap.total s.reservations

/-- What a store holds was charged at its price: `Chunk.heapBytes` for each chunk, and an object of one
    byte for the marker. -/
structure Priced (s : Store) : Prop where
  chunks : ∀ c ∈ s.chunks.toList, c.reservation = ⟨Chunk.heapBytes s.chunkSize⟩
  marker : ∀ box, s.hiddenTop = some box → box = ⟨true, ⟨objectBytes 1⟩⟩

/-- A `Store.Priced` store has one reservation for each chunk, and one for the marker. -/
theorem Priced.length_reservations {s : Store} (h : s.Priced) :
    s.reservations.length = s.chunks.size + s.hasHiddenTop.toNat := by
  rw [reservations, List.length_append, List.length_map, Array.length_toList]
  cases hmarker : s.hiddenTop with
  | none => simp [hasHiddenTop, hmarker]
  | some box => simp [hasHiddenTop, hmarker, h.marker box hmarker]

/-- The chunks of a `Store.Priced` store cost the same each, and its marker costs as much as any. -/
theorem Priced.held_eq {s : Store} (h : s.Priced) :
    s.held = s.chunks.size * Chunk.heapBytes s.chunkSize + s.hasHiddenTop.toNat * objectBytes 1 := by
  have hchunks : Heap.total (s.chunks.toList.map (·.reservation)) =
      s.chunks.size * Chunk.heapBytes s.chunkSize := by
    rw [List.map_congr_left h.chunks, List.map_const', Heap.total_replicate, Array.length_toList]
  rw [held, reservations, Heap.total_append, hchunks]
  cases hmarker : s.hiddenTop with
  | none => simp [hasHiddenTop, hmarker]
  | some box => simp [hasHiddenTop, hmarker, h.marker box hmarker]

/-- Whether what a `Store.Priced` store holds fits under a limit can be told from the prices as they
    are, for one that is cut off at the largest word does not fit anyway. -/
theorem Priced.fits_iff {s : Store} (h : s.Priced) (hne : 0 < s.chunks.size) {limit : Nat}
    (hword : limit < maxWord) (used : Nat) :
    let need := s.chunks.size * (30 * s.chunkSize + 32) + s.hasHiddenTop.toNat * 17
    (used + need ≤ limit ↔ used + s.held ≤ limit) ∧ (used + need ≤ limit → s.held = need) := by
  intro need
  have hmarker : objectBytes 1 = 17 := by decide
  have hchunk : Chunk.heapBytes s.chunkSize = min (30 * s.chunkSize + 32) maxWord := by
    simp only [Chunk.heapBytes, objectBytes, Chunk.payloadBytes, saturatingAdd, objectHeaderBytes]
    omega
  have hheld := h.held_eq
  rw [hmarker, hchunk] at hheld
  -- Either no price is cut off, or already one chunk does not fit
  by_cases hsmall : 30 * s.chunkSize + 32 ≤ maxWord
  · rw [Nat.min_eq_left hsmall] at hheld
    exact ⟨by rw [hheld], fun _ => hheld⟩
  · -- One chunk alone is too much
    rw [Nat.min_eq_right (by omega)] at hheld
    have hfull : maxWord ≤ s.chunks.size * maxWord := Nat.le_mul_of_pos_left _ hne
    have hneed : 30 * s.chunkSize + 32 ≤ s.chunks.size * (30 * s.chunkSize + 32) :=
      Nat.le_mul_of_pos_left _ hne
    constructor
    · omega
    · omega

/-- A change to the slots or the link of a chunk keeps `Store.Priced`. -/
theorem Priced.modify {s : Store} (h : s.Priced) (i : Nat) {g : Chunk → Chunk}
    (hg : ∀ c, (g c).reservation = c.reservation) :
    Priced { s with chunks := s.chunks.modify i g } where
  chunks := Chunk.forall_mem_modify h.chunks i fun c hc => (hg c).trans hc
  marker := h.marker

/-- A fresh chunk of the right size keeps `Store.Priced`. -/
theorem Priced.push {s : Store} (h : s.Priced) :
    Priced { s with chunks := s.chunks.push (Chunk.fresh s.chunkSize) } where
  chunks := by
    intro c hc
    rw [Array.toList_push, List.mem_append, List.mem_singleton] at hc
    rcases hc with hc | rfl
    · exact h.chunks c hc
    · rfl
  marker := h.marker

/-- A marker that is paid for keeps `Store.Priced`. -/
theorem Priced.mark {s : Store} (h : s.Priced) :
    Priced { s with hiddenTop := some ⟨true, ⟨objectBytes 1⟩⟩ } where
  chunks := h.chunks
  marker := by
    intro box hbox
    exact (Option.some.inj hbox).symm

/-- What a `Store.Priced` store holds more when it has some more chunks. -/
theorem Priced.grow {s s' : Store} (h : s.Priced) (h' : s'.Priced) {n : Nat}
    (hsize : s'.chunks.size = s.chunks.size + n) (hchunkSize : s'.chunkSize = s.chunkSize)
    (hhidden : s'.hiddenTop = s.hiddenTop) :
    s'.held = s.held + n * Chunk.heapBytes s.chunkSize ∧
      s'.reservations.length = s.reservations.length + n := by
  have hmark : s'.hasHiddenTop = s.hasHiddenTop := by rw [hasHiddenTop, hhidden, hasHiddenTop]
  rw [h.held_eq, h'.held_eq, h.length_reservations, h'.length_reservations, hsize, hchunkSize, hmark,
    Nat.add_mul]
  omega

end Store

/-- Memory after all of `Store.reservations` was charged. -/
def Memory.holding (m : Memory) (s : Store) : Memory :=
  { m with heap := { m.heap with
      used := m.heap.used + s.held
      allocations := m.heap.allocations + s.reservations.length } }

/-- Every charge up to `limit` is granted, which is below the largest word, and one no-safepoint scope is
    open.  A heap with that limit is so, and one without a limit. -/
structure Memory.Grants (m : Memory) (limit : Nat) : Prop where
  admits : ∀ charge ≤ limit, m.heap.admits charge = true
  limit_lt : limit < maxWord
  depth_eq : m.safepoints.depth = 1

/-- One more object within `limit` is charged by `Memory.charged` as it is. -/
private theorem Memory.Grants.holding_charged {m : Memory} {limit : Nat} (hm : m.Grants limit) {s s' : Store}
    {bytes : Nat} (hheld : s'.held = s.held + bytes)
    (hlength : s'.reservations.length = s.reservations.length + 1)
    (hfits : m.heap.used + s'.held ≤ limit) : (m.holding s).charged 1 bytes = m.holding s' := by
  have hword := hm.limit_lt
  -- The sum does not saturate
  have hcharged : saturatingAdd (m.heap.used + s.held) bytes = m.heap.used + s'.held := by
    simp only [saturatingAdd]
    omega
  simp only [Memory.holding, Memory.charged, Heap.charged, hcharged, hlength, Nat.add_assoc]

/-- An object that fits within `limit` on top of `Memory.holding` is granted. -/
private theorem Memory.Grants.admits_holding {m : Memory} {limit : Nat} (hm : m.Grants limit) {s : Store}
    {bytes : Nat} (hfits : m.heap.used + s.held + bytes ≤ limit) :
    (m.holding s).heap.admits (saturatingAdd (m.holding s).heap.used bytes) = true := by
  apply hm.admits
  exact Nat.le_trans (Nat.min_le_left _ _) hfits

/-- The heap has the exact limit `limit`, and one no-safepoint scope is open. -/
structure Memory.Limited (m : Memory) (limit : Nat) : Prop where
  limit_eq : m.heap.limit = some limit
  limit_lt : limit < maxWord
  depth_eq : m.safepoints.depth = 1

namespace Memory.Limited

variable {m : Memory} {limit : Nat}

/-- A heap with an exact limit grants what comes to no more than that (`Memory.Grants`). -/
theorem grants (hm : m.Limited limit) : m.Grants limit where
  admits := by
    intro charge hcharge
    simp only [Heap.admits, hm.limit_eq, Option.all_some, decide_eq_true_eq]
    exact hcharge
  limit_lt := hm.limit_lt
  depth_eq := hm.depth_eq

/-- Under `Memory.Limited`, bytes are admitted beside a store exactly if they fit. -/
private theorem admits_holding (hm : m.Limited limit) (s : Store) (bytes : Nat) :
    (m.holding s).heap.admits (saturatingAdd (m.holding s).heap.used bytes) = true ↔
      m.heap.used + s.held + bytes ≤ limit := by
  have hlimit : (m.holding s).heap.limit = some limit := hm.limit_eq
  exact Heap.admits_iff hlimit hm.limit_lt bytes

end Memory.Limited

namespace Builder

/-! ### What an operation costs -/

/-- The state of a builder that `Builder.start` began, on a store that was not used before. -/
structure Fresh (b : Builder) : Prop where
  sound : b.Sound
  reuse_eq : b.reuse = false
  priced : b.store.Priced

/-- What an operation costs that is done on `b`. -/
inductive Costs (b : Builder) (op : Memory → Except (Failure TraceError) Unit × Builder × Memory) :
    Prop
  /-- It fails, and that has nothing to do with memory. -/
  | fails {e : Failure TraceError} (op_eq : ∀ m, op m = (.error e, b, m))
  /-- It allocates nothing. -/
  | free {b' : Builder} (fresh : b'.Fresh) (same : b.SameStore b')
      (held_eq : b'.store.held = b.store.held)
      (length_eq : b'.store.reservations.length = b.store.reservations.length)
      (op_eq : ∀ m, op m = (.ok (), b', m))
  /-- It allocates one object, which the store of `b'` then holds. -/
  | object {b' : Builder} {bytes : Nat} (fresh : b'.Fresh) (same : b.SameStore b')
      (held_eq : b'.store.held = b.store.held + bytes)
      (length_eq : b'.store.reservations.length = b.store.reservations.length + 1)
      (op_eq : ∀ m : Memory, m.safepoints.depth = 1 → op m =
        if m.heap.admits (saturatingAdd m.heap.used bytes) then (.ok (), b', m.charged 1 bytes)
        else (.error (.error (.outOfMemory ⟨bytes, m.heap.available.getD 0⟩)), b, m))

/-- Memory on which the operations of a `Builder` are seen to succeed. -/
private def ample : Memory := ⟨Heap.ofLimit none, ⟨1⟩⟩

/-- A `Builder.Fresh` store has counted its frames, and has as many chunks as they need, and one if
    there is none. -/
theorem Fresh.counts {b : Builder} (hb : b.Fresh) :
    b.store.frameCount = b.depth ∧
      b.store.chunks.size = max 1 ((b.depth + b.store.chunkSize - 1) / b.store.chunkSize) := by
  have hcount := hb.sound.frameCount_finish ample
  rw [finish_of_new hb.reuse_eq] at hcount
  exact ⟨hcount, (hb.sound.size_chunks_of_new hb.reuse_eq).trans hb.sound.current_eq⟩

/-- `Builder.write` keeps `Store.Priced`. -/
theorem priced_write {b : Builder} (hb : b.store.Priced) (f : StoredFrame) :
    (b.write f).store.Priced :=
  hb.modify b.current fun c => by rw [Chunk.write_eq]

/-- `Builder.advance` keeps `Store.Priced`. -/
theorem priced_advance {b : Builder} (hb : b.store.Priced) (id : Nat) :
    (b.advance id).store.Priced :=
  hb.modify b.current fun _ => rfl

/-- `Builder.expand` on a new store always adds a new chunk. -/
private theorem Fresh.expand_eq {b : Builder} (hb : b.Fresh) {m : Memory} (hdepth : m.safepoints.depth = 1) :
    b.expand m =
      if m.heap.admits (saturatingAdd m.heap.used (Chunk.heapBytes b.store.chunkSize)) then
        (.ok (), (b.addChunk (.fresh b.store.chunkSize)).advance b.store.chunks.size,
          m.charged 1 (Chunk.heapBytes b.store.chunkSize))
      else (.error (.error (.outOfMemory
        ⟨Chunk.heapBytes b.store.chunkSize, m.heap.available.getD 0⟩)), b, m) := by
  have hchunk := (Chunk.asks_allocate b.store.chunkSize).paused hdepth b.verifier
  by_cases hadmits :
      m.heap.admits (saturatingAdd m.heap.used (Chunk.heapBytes b.store.chunkSize)) = true
  · rw [if_pos hadmits] at hchunk ⊢
    simp only [expand, hb.reuse_eq, Bool.false_and, Bool.false_eq_true, if_false, hchunk]
  · rw [if_neg hadmits] at hchunk ⊢
    simp only [expand, hb.reuse_eq, Bool.false_and, Bool.false_eq_true, if_false, hchunk,
      Failure.mapError]

/-- `Builder.push` costs a chunk if the current one is full. -/
theorem Fresh.push {b : Builder} (hb : b.Fresh) (holder : Class) (method : Method) (bci : Int) :
    b.Costs fun m => b.push m holder method bci := by
  cases hfits : Location.fits bci with
  | false => exact .fails fun m => push_of_not_fits hfits b m holder method
  | true =>
    obtain ⟨f, -, hpush⟩ := push_of_fits hfits holder method
    -- A slot that is left costs nothing
    by_cases hslot : b.slot < b.store.chunkSize
    · have hop : ∀ m, b.push m holder method bci = (.ok (), b.write f, m) := by
        intro m
        rw [hpush, if_pos hslot]
      have hpushed := hb.sound.push_ok (hop ample)
      have hpriced := priced_write hb.priced f
      obtain ⟨hheld, hlength⟩ := hb.priced.grow hpriced (n := 0) (by simp [write_eq]) rfl rfl
      rw [Nat.zero_mul] at hheld
      exact .free ⟨hpushed.sound, hpushed.same.reuse_eq.trans hb.reuse_eq, hpriced⟩ hpushed.same
        hheld hlength hop
    · -- The frame goes into a new chunk, if that is granted
      let wide := (b.addChunk (.fresh b.store.chunkSize)).advance b.store.chunks.size
      have hop : ∀ m : Memory, m.safepoints.depth = 1 → b.push m holder method bci =
          if m.heap.admits (saturatingAdd m.heap.used (Chunk.heapBytes b.store.chunkSize)) then
            (.ok (), wide.write f, m.charged 1 (Chunk.heapBytes b.store.chunkSize))
          else (.error (.error (.outOfMemory
            ⟨Chunk.heapBytes b.store.chunkSize, m.heap.available.getD 0⟩)), b, m) := by
        intro m hdepth
        rw [hpush, if_neg hslot, hb.expand_eq hdepth]
        by_cases hadmits :
            m.heap.admits (saturatingAdd m.heap.used (Chunk.heapBytes b.store.chunkSize)) = true
        · rw [if_pos hadmits, if_pos hadmits]
        · rw [if_neg hadmits, if_neg hadmits]
      have hample : ample.heap.admits
          (saturatingAdd ample.heap.used (Chunk.heapBytes b.store.chunkSize)) = true := rfl
      have hpushed := hb.sound.push_ok ((hop ample rfl).trans (if_pos hample))
      have hpriced : (wide.write f).store.Priced :=
        priced_write (priced_advance hb.priced.push b.store.chunks.size) f
      have hsize : (wide.write f).store.chunks.size = b.store.chunks.size + 1 := by
        simp [wide, write_eq, advance_eq, addChunk_eq]
      obtain ⟨hheld, hlength⟩ := hb.priced.grow hpriced hsize rfl rfl
      rw [Nat.one_mul] at hheld
      exact .object ⟨hpushed.sound, hpushed.same.reuse_eq.trans hb.reuse_eq, hpriced⟩ hpushed.same
        hheld hlength hop

/-- `Builder.markHiddenTop` costs the marker, the first time. -/
theorem Fresh.markHiddenTop {b : Builder} (hb : b.Fresh) : b.Costs (b.markHiddenTop ·) := by
  -- A second marker is not set, so it costs nothing
  cases hhidden : b.store.hasHiddenTop with
  | true =>
    have hop : ∀ m, b.markHiddenTop m = (.ok (), b, m) := by
      intro m
      simp only [Builder.markHiddenTop, hhidden, if_true]
    exact .free hb (SameStore.refl b) rfl rfl hop
  | false =>
    let marked : Builder :=
      { b with store := { b.store with hiddenTop := some ⟨true, ⟨objectBytes 1⟩⟩ } }
    have hop : ∀ m : Memory, m.safepoints.depth = 1 → b.markHiddenTop m =
        if m.heap.admits (saturatingAdd m.heap.used (objectBytes 1)) then
          (.ok (), marked, m.charged 1 (objectBytes 1))
        else (.error (.error (.outOfMemory ⟨objectBytes 1, m.heap.available.getD 0⟩)), b, m) := by
      intro m hdepth
      have hbox := (Memory.asks_box true).paused hdepth b.verifier
      by_cases hadmits : m.heap.admits (saturatingAdd m.heap.used (objectBytes 1)) = true
      · rw [if_pos hadmits] at hbox ⊢
        simp only [Builder.markHiddenTop, hhidden, Bool.false_eq_true, if_false, hbox]
        rfl
      · rw [if_neg hadmits] at hbox ⊢
        simp only [Builder.markHiddenTop, hhidden, Bool.false_eq_true, if_false, hbox,
          Failure.mapError]
    -- On ample memory the marker is granted, which tells what the store is then like
    have hample : ample.heap.admits (saturatingAdd ample.heap.used (objectBytes 1)) = true := rfl
    have hmarked := hb.sound.markHiddenTop_ok ((hop ample rfl).trans (if_pos hample))
    have hpriced : marked.store.Priced := hb.priced.mark
    have hset : marked.store.hasHiddenTop = true := rfl
    have hheld : marked.store.held = b.store.held + objectBytes 1 := by
      rw [hpriced.held_eq, hb.priced.held_eq, hhidden, hset]
      simp [marked]
    have hlength : marked.store.reservations.length = b.store.reservations.length + 1 := by
      rw [hpriced.length_reservations, hb.priced.length_reservations, hhidden, hset]
      rfl
    exact .object ⟨hmarked.sound, hb.reuse_eq, hpriced⟩ hmarked.same hheld hlength hop

/-! ### Beginning -/

/-- The builder that `Builder.start` begins. -/
def initial (chunkSize : Nat) : Builder where
  store := ⟨chunkSize, #[.fresh chunkSize], none⟩
  current := 0
  slot := 0
  depth := 0
  reuse := false
  verifier := ⟨true⟩

/-- `Builder.initial` is `Builder.Fresh`. -/
theorem fresh_initial {chunkSize : Nat} (hpos : 0 < chunkSize) : (initial chunkSize).Fresh where
  sound := by
    have hfits := Chunk.fits_empty chunkSize ⟨Chunk.heapBytes chunkSize⟩
    refine ⟨[], .fresh chunkSize, [], ⟨rfl, hpos, trivial, hfits, by simp, rfl, ?_, ?_⟩, by simp,
      fun _ => ⟨rfl, rfl, rfl⟩⟩
    · exact Nat.le_refl 0
    · simp [initial]
  reuse_eq := rfl
  priced := by
    constructor
    · simp [initial, Chunk.fresh]
    · simp [initial]

/-- Memory on which a builder has opened its scope by `Safepoints.openScope`. -/
def inScope (m : Memory) : Memory := { m with safepoints := m.safepoints.openScope.2 }

/-- `Builder.inScope` opens the only scope where none was open. -/
theorem depth_inScope {m : Memory} (hallowed : m.safepoints.allowed = true) :
    (inScope m).safepoints.depth = 1 := by
  have hzero := (Safepoints.allowed_iff m.safepoints).mp hallowed
  simp [inScope, Safepoints.openScope, hzero]

/-- A new store by `Builder.start` costs one chunk.  If that is refused, nothing has happened. -/
theorem start_eq {chunkSize : Nat} (hpos : 0 < chunkSize) {m : Memory}
    (hallowed : m.safepoints.allowed = true) :
    start chunkSize m =
      if m.heap.admits (saturatingAdd m.heap.used (Chunk.heapBytes chunkSize)) then
        (.ok (initial chunkSize), (inScope m).charged 1 (Chunk.heapBytes chunkSize))
      else (.error (.error (.outOfMemory ⟨Chunk.heapBytes chunkSize, m.heap.available.getD 0⟩)), m) := by
  have hstore := (Store.asks_allocate hpos).paused (depth_inScope hallowed) m.safepoints.openScope.1
  have hheap : (inScope m).heap = m.heap := rfl
  rw [hheap] at hstore
  unfold inScope at hstore
  by_cases hadmits : m.heap.admits (saturatingAdd m.heap.used (Chunk.heapBytes chunkSize)) = true
  · rw [if_pos hadmits] at hstore ⊢
    simp only [start, hstore]
    rfl
  · rw [if_neg hadmits] at hstore ⊢
    simp only [start, hstore]
    rfl

/-- The store of `Builder.initial` holds one chunk. -/
theorem held_initial (chunkSize : Nat) :
    (initial chunkSize).store.held = Chunk.heapBytes chunkSize := by
  simp [initial, Store.held, Store.reservations, Chunk.fresh]

/-- `Builder.start` where the first chunk fits within `limit`: the new store holds all that was
    charged. -/
theorem start_of_fits {chunkSize : Nat} (hpos : 0 < chunkSize) {m : Memory} {limit : Nat}
    (hallowed : m.safepoints.allowed = true) (hm : (inScope m).Grants limit)
    (hfits : m.heap.used + (initial chunkSize).store.held ≤ limit) :
    start chunkSize m = (.ok (initial chunkSize), (inScope m).holding (initial chunkSize).store) := by
  have hroom : m.heap.used + Chunk.heapBytes chunkSize ≤ limit := by
    rw [← held_initial]
    exact hfits
  have hadmits : m.heap.admits (saturatingAdd m.heap.used (Chunk.heapBytes chunkSize)) = true :=
    hm.admits _ (Nat.le_trans (Nat.min_le_left _ _) hroom)
  -- Before its first chunk the store holds nothing
  have hheld : (initial chunkSize).store.held =
      Store.held ⟨chunkSize, #[], none⟩ + Chunk.heapBytes chunkSize := by
    rw [held_initial]
    simp [Store.held, Store.reservations]
  have hcharged : (inScope m).charged 1 (Chunk.heapBytes chunkSize) =
      (inScope m).holding (initial chunkSize).store := hm.holding_charged hheld rfl hfits
  rw [start_eq hpos hallowed, if_pos hadmits, hcharged]

/-- `Builder.start` is refused where one chunk does not fit under the limit. -/
theorem start_of_not_fits {chunkSize : Nat} (hpos : 0 < chunkSize) {m : Memory} {limit : Nat}
    (hallowed : m.safepoints.allowed = true) (hm : (inScope m).Limited limit)
    (hover : limit < m.heap.used + (initial chunkSize).store.held) :
    ∃ e, start chunkSize m = (.error (.error (.outOfMemory e)), m) := by
  have hlimit : m.heap.limit = some limit := hm.limit_eq
  rw [held_initial] at hover
  have hroom : ¬ m.heap.used + Chunk.heapBytes chunkSize ≤ limit := by omega
  rw [start_eq hpos hallowed, if_neg (mt (Heap.admits_iff hlimit hm.limit_lt _).mp hroom)]
  exact ⟨_, rfl⟩

/-- `Builder.start` begins a store only where no no-safepoint scope is open. -/
theorem allowed_of_start {chunkSize : Nat} {m m' : Memory} {b : Builder}
    (h : start chunkSize m = (.ok b, m')) : m.safepoints.allowed = true := by
  cases hallowed : m.safepoints.allowed with
  | true => rfl
  | false =>
    -- The pause lifts only the scope of the builder
    have hpos : chunkSize ≠ 0 := by
      rcases start_cases h with ⟨e, he⟩ | ⟨hpos, -⟩
      · cases he
      · omega
    simp [start, Memory.paused, Safepoints.openScope, Safepoints.pause, Store.allocate, hpos,
      Chunk.allocate, Memory.allocate, hallowed] at h

/-! ### Under a limit -/

/-- What becomes of an operation that elsewhere leads from `b` to `b'` and comes to `r`.  It does the same
    where all is granted that the store of `b'` holds (`Memory.Grants`), with a limit or without.
    Under a lower limit (`Memory.Limited`) it is refused at some builder between the two, and all that
    was charged then is held by the store of that builder. -/
structure Budgeted (op : Memory → Except (Failure TraceError) Unit × Builder × Memory)
    (b b' : Builder) (r : Except (Failure TraceError) Unit) : Prop where
  held_le : b.store.held ≤ b'.store.held
  granted : ∀ {m : Memory} {limit : Nat}, m.Grants limit → m.heap.used + b'.store.held ≤ limit →
    op (m.holding b.store) = (r, b', m.holding b'.store)
  refused : ∀ {m : Memory} {limit : Nat}, m.Limited limit → m.heap.used + b.store.held ≤ limit →
    limit < m.heap.used + b'.store.held →
    ∃ e b₁, op (m.holding b.store) =
        (.error (.error (.outOfMemory e)), b₁, m.holding b₁.store) ∧
      m.heap.used + b₁.store.held ≤ limit

/-- What is known of an operation that was seen to lead from `b` to `b'` and to come to `r`, where it left
    the memory `m'`. -/
structure Led (op : Memory → Except (Failure TraceError) Unit × Builder × Memory) (b b' : Builder)
    (r : Except (Failure TraceError) Unit) (m' : Memory) : Prop where
  fresh : b'.Fresh
  same : b.SameStore b'
  depth_eq : m'.safepoints.depth = 1
  budgeted : Budgeted op b b' r

section Limit

variable {b b₁ b' : Builder} {m m' : Memory} {r : Except (Failure TraceError) Unit}
  {op : Memory → Except (Failure TraceError) Unit × Builder × Memory}
  {again : Builder → Memory → Except (Failure TraceError) Unit × Builder × Memory}

/-- An operation that leaves builder and memory alone is `Builder.Budgeted` under any limit. -/
theorem Budgeted.nothing (hop : ∀ m, op m = (r, b, m)) : Budgeted op b b r where
  held_le := Nat.le_refl _
  granted := fun _ _ => hop _
  refused := by
    intro m limit _ hfits hover
    omega

/-- An operation with `Builder.Costs` leaves a heap that never refuses as such. -/
private theorem Costs.neverRefuses (h : b.Costs op) (hdepth : m.safepoints.depth = 1)
    (hm : m.heap.NeverRefuses) (hop : op m = (r, b', m')) : m'.heap.NeverRefuses := by
  cases h with
  | fails op_eq | free _ _ _ _ op_eq =>
    rw [op_eq] at hop
    cases hop
    exact hm
  | object _ _ _ _ op_eq =>
    rw [op_eq _ hdepth, if_pos (hm.admits_saturatingAdd _ _)] at hop
    cases hop
    exact hm.charged 1 _

/-- An operation with `Builder.Costs` is `Builder.Led` where it was seen to succeed, or to come to anything on
    a heap that never refuses. -/
theorem Costs.led (h : b.Costs op) (hb : b.Fresh) (hdepth : m.safepoints.depth = 1)
    (hseen : r = .ok () ∨ m.heap.NeverRefuses) (hop : op m = (r, b', m')) : Led op b b' r m' := by
  cases h with
  -- An operation that always fails fails here for the same reason
  | fails op_eq =>
    rw [op_eq] at hop
    cases hop
    exact ⟨hb, .refl b, hdepth, .nothing op_eq⟩
  | free fresh same held_eq length_eq op_eq =>
    rw [op_eq] at hop
    cases hop
    refine ⟨fresh, same, hdepth, ⟨Nat.le_of_eq held_eq.symm, ?_, ?_⟩⟩
    · intro m limit _ _
      rw [op_eq, Memory.holding, Memory.holding, held_eq, length_eq]
    · intro m limit _ hfits hover
      omega
  | object fresh same held_eq length_eq op_eq =>
    rw [op_eq _ hdepth] at hop
    split at hop
    · -- The object was granted there
      cases hop
      refine ⟨fresh, same, hdepth, ⟨by omega, ?_, ?_⟩⟩
      · intro m limit hm hfits
        have hgranted := op_eq (m.holding b.store) hm.depth_eq
        rw [if_pos (hm.admits_holding (by omega))] at hgranted
        rw [hgranted, hm.holding_charged held_eq length_eq hfits]
      · intro m limit hm hfits hover
        have hrefused := op_eq (m.holding b.store) hm.depth_eq
        rw [if_neg (by rw [hm.admits_holding]; omega)] at hrefused
        exact ⟨_, b, hrefused, hfits⟩
    -- A refusal was ruled out where the operation was seen
    · rename_i hrefused
      cases hop
      exact absurd ((hseen.resolve_left nofun).admits_saturatingAdd _ _) hrefused

/-- `Builder.Budgeted` for operations one after the other, each on the builder that the one before it
    leads to. -/
private theorem Budgeted.andThen (h : Budgeted op b b₁ (.ok ())) (h' : Budgeted (again b₁) b₁ b' r) :
    Budgeted (fun m =>
      match op m with
      | (.error e, b, m) => (.error e, b, m)
      | (.ok (), b, m) => again b m) b b' r where
  held_le := Nat.le_trans h.held_le h'.held_le
  granted := by
    intro m limit hm hfits
    have hle := h'.held_le
    rw [h.granted hm (by omega)]
    exact h'.granted hm hfits
  refused := by
    intro m limit hm hfits hover
    by_cases hfirst : m.heap.used + b₁.store.held ≤ limit
    · rw [h.granted hm.grants hfirst]
      exact h'.refused hm hfirst hover
    · obtain ⟨e, b₂, hop, hheld⟩ := h.refused hm hfits (by omega)
      rw [hop]
      exact ⟨e, b₂, rfl, hheld⟩

/-- `Builder.Budgeted` behind an operation that fails for a reason of its own: nothing is done any
    more. -/
private theorem Budgeted.stop {e : Failure TraceError} (h : Budgeted op b b' (.error e)) :
    Budgeted (fun m =>
      match op m with
      | (.error e, b, m) => (.error e, b, m)
      | (.ok (), b, m) => again b m) b b' (.error e) where
  held_le := h.held_le
  granted := by
    intro m limit hm hfits
    rw [h.granted hm hfits]
  refused := by
    intro m limit hm hfits hover
    obtain ⟨e', b₁, hop, hheld⟩ := h.refused hm hfits hover
    rw [hop]
    exact ⟨e', b₁, rfl, hheld⟩

/-- `Costs.led` for an operation and after it another, or several. -/
theorem Costs.led_andThen (hop : b.Costs op) (hb : b.Fresh) (hdepth : m.safepoints.depth = 1)
    (hseen : r = .ok () ∨ m.heap.NeverRefuses)
    (hagain : ∀ {b₁ m₁}, b₁.Fresh → m₁.safepoints.depth = 1 →
      r = .ok () ∨ m₁.heap.NeverRefuses → again b₁ m₁ = (r, b', m') → Led (again b₁) b₁ b' r m')
    (hrun : (match op m with
      | (.error e, b, m) => (.error e, b, m)
      | (.ok (), b, m) => again b m) = (r, b', m')) :
    Led (fun m =>
      match op m with
      | (.error e, b, m) => (.error e, b, m)
      | (.ok (), b, m) => again b m) b b' r m' := by
  split at hrun
  · -- The first operation has failed, and its failure is the result
    rename_i hfirst
    cases hrun
    have hled := hop.led hb hdepth hseen hfirst
    exact ⟨hled.fresh, hled.same, hled.depth_eq, hled.budgeted.stop⟩
  · rename_i b₁ m₁ hfirst
    have hled := hop.led hb hdepth (.inl rfl) hfirst
    have hrest := hagain hled.fresh hled.depth_eq
      (hseen.imp_right fun hm => hop.neverRefuses hdepth hm hfirst) hrun
    exact ⟨hrest.fresh, hled.same.trans hrest.same, hrest.depth_eq,
      hled.budgeted.andThen hrest.budgeted⟩

end Limit

/-- `Builder.abandon` gives back all that the builder has charged. -/
theorem used_abandon {b : Builder} {m : Memory} (hfits : m.heap.used + b.store.held ≤ maxWord) :
    (b.abandon (m.holding b.store)).heap.used = m.heap.used :=
  Heap.used_releaseAll rfl hfits

end Builder

end StackTrace
