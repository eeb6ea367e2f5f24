import StackTrace.Trace.Builder

/-!
# What one operation of a builder can do

An operation of a `Builder` fails and leaves the builder as it was, or makes one of a few changes to
it.  Every property of a builder is derived from the case distinctions that are stated here.

## Key results

- `Builder.expand_cases`, `Builder.push_cases`, `Builder.markHiddenTop_cases`: what an operation has
  done, whether it succeeded or not
- `Builder.start_cases`: the builder that a new store is filled with
- `Location.pack_of_fits`: what is packed can be read back
-/

namespace StackTrace

/-! ## The record of an activation -/

namespace Location

/-- `Location.fits` holds from the synchronization entry `-1` up to what 16 bits can hold. -/
theorem fits_iff (bci : Int) : fits bci = true ↔ -1 ≤ bci ∧ bci ≤ 65535 := by
  simp only [fits, Bool.or_eq_true, Bool.and_eq_true, beq_iff_eq, decide_eq_true_eq]
  simp only [syncEntryBci, maxBci]
  omega

/-- `Location.pack` succeeds for an index that fits, and both parts can be read back. -/
theorem pack_of_fits {bci : Int} (hfits : fits bci = true) (generation : Nat) :
    ∃ l, pack bci generation = .ok l ∧ l.bci = max bci 0 ∧ l.version = versionOf generation := by
  have hversion : versionOf generation ≤ 65535 := Nat.min_le_right _ _
  have hbci : bci.toNat ≤ 65535 := by
    rw [fits_iff] at hfits
    omega
  -- Each half fits into 16 bits, so the word does not wrap around
  have hword : (UInt32.ofNat (bci.toNat * 65536 + versionOf generation)).toNat =
      bci.toNat * 65536 + versionOf generation :=
    UInt32.toNat_ofNat_of_lt' (by simp only [UInt32.size]; omega)
  refine ⟨⟨UInt32.ofNat (bci.toNat * 65536 + versionOf generation)⟩, ?_, ?_, ?_⟩
  · simp only [pack, hfits, if_true]
  · simp only [Location.bci, hword]
    omega
  · simp only [version, hword]
    omega

/-- `Location.pack` refuses an index that does not fit. -/
private theorem pack_of_not_fits {bci : Int} (hfits : fits bci = false) (generation : Nat) :
    pack bci generation = .error (.bciDoesNotFit bci) :=
  (pack_eq_error_iff bci generation _).mpr ⟨hfits, rfl⟩

end Location

/-- The frame stores an activation of `method`, whose class is `holder`, at index `bci`. -/
structure StoredFrame.Records (f : StoredFrame) (holder : Class) (method : Method) (bci : Int) :
    Prop where
  holder_eq : f.holder = holder.id
  ordinal_eq : f.ordinal = method.ordinal
  bci_eq : f.location.bci = max bci 0
  version_eq : f.location.version = Location.versionOf method.generation
  name_eq : f.name = method.name

/-! ## Allocation in a pause -/

/-- What comes out of `Memory.paused` came out of the action. -/
private theorem Memory.of_paused_eq {α : Type} {m m' : Memory} {v : Verifier}
    {action : Memory → α × Memory} {result : α} (h : m.paused v action = (result, m')) :
    ∃ m₁ m₂, action m₁ = (result, m₂) := by
  have hfst : (action { m with safepoints := (m.safepoints.pause v).2 }).1 = result :=
    congrArg Prod.fst h
  exact ⟨_, _, Prod.ext hfst rfl⟩

/-- `Memory.box` boxes the value that it is given. -/
private theorem Memory.box_ok {m m' : Memory} {value : Bool} {box : BoxedBool}
    (h : m.box value = (.ok box, m')) : box.value = value := by
  unfold Memory.box at h
  split at h
  · cases h
    rfl
  · cases h

/-- A chunk by `Chunk.allocate` is empty. -/
private theorem Chunk.allocate_ok {capacity : Nat} {m m' : Memory} {c : Chunk}
    (h : Chunk.allocate capacity m = (.ok c, m')) :
    ∃ reservation, c = ⟨capacity, #[], none, reservation⟩ := by
  unfold Chunk.allocate at h
  split at h
  · cases h
    exact ⟨_, rfl⟩
  · cases h

/-- A store by `Store.allocate` has one empty chunk. -/
private theorem Store.allocate_ok {chunkSize : Nat} {m m' : Memory} {s : Store}
    (h : Store.allocate chunkSize m = (.ok s, m')) :
    0 < chunkSize ∧
      ∃ reservation, s = ⟨chunkSize, #[⟨chunkSize, #[], none, reservation⟩], none⟩ := by
  unfold Store.allocate at h
  split at h
  · cases h
  · rename_i hne
    split at h
    · rename_i hhead
      obtain ⟨reservation, rfl⟩ := Chunk.allocate_ok hhead
      cases h
      exact ⟨Nat.pos_of_ne_zero hne, reservation, rfl⟩
    · cases h

/-! ## Changes to a builder -/

/-- `Chunk.write` changes only the slots. -/
theorem Chunk.write_eq (c : Chunk) (slot : Nat) (f : StoredFrame) :
    c.write slot f = { c with frames :=
      if slot < c.frames.size then c.frames.setIfInBounds slot f else c.frames.push f } := by
  obtain ⟨capacity, frames, next, reservation⟩ := c
  simp only [write]
  split <;> rfl

/-- What holds of all chunks goes on to hold after a change by `Array.modify` to one of them that keeps
    it. -/
theorem Chunk.forall_mem_modify {cs : Array Chunk} {P : Chunk → Prop} (hcs : ∀ c ∈ cs.toList, P c)
    (i : Nat) {g : Chunk → Chunk} (hg : ∀ c, P c → P (g c)) :
    ∀ c ∈ (cs.modify i g).toList, P c := by
  intro c hc
  rw [Array.toList_modify] at hc
  -- The chunk was there before, or is the changed one
  obtain ⟨j, hj⟩ := List.mem_iff_getElem?.mp hc
  rw [List.getElem?_modify, Option.map_eq_map, Option.map_eq_some_iff] at hj
  obtain ⟨d, hd, hcd⟩ := hj
  have hold := hcs d (List.mem_iff_getElem?.mpr ⟨j, hd⟩)
  split at hcd
  · exact hcd ▸ hg d hold
  · exact hcd ▸ hold

namespace Builder

/-- `Builder.write` changes one chunk, moves to the next slot, and counts the frame. -/
theorem write_eq (b : Builder) (f : StoredFrame) :
    b.write f = { b with
      store := { b.store with chunks := b.store.chunks.modify b.current (·.write b.slot f) }
      slot := b.slot + 1
      depth := b.depth + 1 } := rfl

/-- `Builder.advance` links the chunk under the cursor to another and moves in front of that one. -/
theorem advance_eq (b : Builder) (id : Nat) :
    b.advance id = { b with
      store :=
        { b.store with chunks := b.store.chunks.modify b.current ({ · with next := some id }) }
      current := id
      slot := 0 } := rfl

/-- `Builder.addChunk` puts a chunk at the end of the arena. -/
theorem addChunk_eq (b : Builder) (c : Chunk) :
    b.addChunk c = { b with store := { b.store with chunks := b.store.chunks.push c } } := rfl

/-! ## What an operation has done -/

section Cases

variable {b b' : Builder} {m m' : Memory} {r : Except (Failure TraceError) Unit}

/-- `Builder.expand` has failed, has moved the cursor into the next chunk of a used store, or has moved
    it into a new chunk because no other was left. -/
theorem expand_cases (h : b.expand m = (r, b', m')) :
    ((∃ e, r = .error e) ∧ b' = b) ∨
    (r = .ok () ∧ b.reuse = true ∧ b.current + 1 < b.store.chunks.size ∧
      b' = b.advance (b.current + 1)) ∨
    (r = .ok () ∧ (b.reuse = true → b.store.chunks.size ≤ b.current + 1) ∧
      ∃ reservation, b' = (b.addChunk ⟨b.store.chunkSize, #[], none, reservation⟩).advance
        b.store.chunks.size) := by
  unfold expand at h
  split at h
  -- A used store has a chunk behind the one under the cursor
  · rename_i hused
    obtain ⟨hreuse, hlt⟩ := Bool.and_eq_true_iff.mp hused
    cases h
    exact .inr (.inl ⟨rfl, hreuse, of_decide_eq_true hlt, rfl⟩)
  -- There is none, so a chunk is asked for
  · rename_i hnew
    split at h
    · cases h
      exact .inl ⟨⟨_, rfl⟩, rfl⟩
    · rename_i hpaused
      obtain ⟨m₁, m₂, hallocate⟩ := Memory.of_paused_eq hpaused
      obtain ⟨reservation, rfl⟩ := Chunk.allocate_ok hallocate
      cases h
      refine .inr (.inr ⟨rfl, fun hreuse => Nat.le_of_not_lt fun hlt => hnew ?_, reservation, rfl⟩)
      exact Bool.and_eq_true_iff.mpr ⟨hreuse, decide_eq_true hlt⟩

/-- What `Builder.push` does for an index that fits: it writes a record, after moving on if it has
    to. -/
theorem push_of_fits {bci : Int} (hfits : Location.fits bci = true) (holder : Class)
    (method : Method) : ∃ f : StoredFrame, f.Records holder method bci ∧
      ∀ (b : Builder) (m : Memory), b.push m holder method bci =
        if b.slot < b.store.chunkSize then (.ok (), b.write f, m)
        else
          match b.expand m with
          | (.error e, b, m) => (.error e, b, m)
          | (.ok (), b, m) => (.ok (), b.write f, m) := by
  obtain ⟨l, hpack, hbci, hversion⟩ := Location.pack_of_fits hfits method.generation
  refine ⟨⟨holder.id, method.ordinal, l, method.name⟩, ⟨rfl, rfl, hbci, hversion, rfl⟩, ?_⟩
  intro b m
  unfold push
  split
  · rename_i herror
    cases hpack.symm.trans herror
  · rename_i hok
    cases hpack.symm.trans hok
    rfl

/-- `Builder.push` refuses an index that does not fit, and names the method and the index. -/
theorem push_of_not_fits {bci : Int} (hfits : Location.fits bci = false) (b : Builder) (m : Memory)
    (holder : Class) (method : Method) :
    b.push m holder method bci = (.error (.error
      (.bciOutOfRange (holder.externalName ++ "." ++ method.name.text) bci)), b, m) := by
  simp only [push, Location.pack_of_not_fits hfits]

/-- `Builder.push` has failed, or has written a record, after moving on if the chunk was full. -/
theorem push_cases {holder : Class} {method : Method} {bci : Int}
    (h : b.push m holder method bci = (r, b', m')) :
    ((∃ e, r = .error e) ∧ b' = b) ∨
    (r = .ok () ∧ ∃ (f : StoredFrame) (d : Builder), f.Records holder method bci ∧
      b' = d.write f ∧ ((b.slot < b.store.chunkSize ∧ d = b) ∨
        (b.store.chunkSize ≤ b.slot ∧ ∃ m'', b.expand m = (.ok (), d, m'')))) := by
  cases hfits : Location.fits bci with
  | false =>
    rw [push_of_not_fits hfits] at h
    cases h
    exact .inl ⟨⟨_, rfl⟩, rfl⟩
  | true =>
    obtain ⟨f, hrecords, hpush⟩ := push_of_fits hfits holder method
    rw [hpush] at h
    split at h
    · rename_i hslot
      cases h
      exact .inr ⟨rfl, f, b, hrecords, rfl, .inl ⟨hslot, rfl⟩⟩
    · rename_i hslot
      split at h
      · rename_i hexpand
        -- Only a further chunk can be refused now, and nothing has been changed for that
        rcases expand_cases hexpand with ⟨-, rfl⟩ | ⟨hok, -⟩ | ⟨hok, -⟩
        · cases h
          exact .inl ⟨⟨_, rfl⟩, rfl⟩
        · cases hok
        · cases hok
      · rename_i d m'' hexpand
        cases h
        exact .inr ⟨rfl, f, d, hrecords, rfl, .inr ⟨Nat.le_of_not_lt hslot, _, hexpand⟩⟩

/-- `Builder.markHiddenTop` has failed, was not needed, or has set a marker. -/
theorem markHiddenTop_cases (h : b.markHiddenTop m = (r, b', m')) :
    ((∃ e, r = .error e) ∧ b' = b) ∨ (r = .ok () ∧ b.store.hasHiddenTop = true ∧ b' = b) ∨
      (r = .ok () ∧ ∃ marker : BoxedBool, marker.value = true ∧
        b' = { b with store := { b.store with hiddenTop := some marker } }) := by
  unfold markHiddenTop at h
  split at h
  · rename_i hhidden
    cases h
    exact .inr (.inl ⟨rfl, hhidden, rfl⟩)
  · split at h
    · cases h
      exact .inl ⟨⟨_, rfl⟩, rfl⟩
    · rename_i hpaused
      obtain ⟨m₁, m₂, hbox⟩ := Memory.of_paused_eq hpaused
      cases h
      exact .inr (.inr ⟨rfl, _, Memory.box_ok hbox, rfl⟩)

/-- `Builder.start` has failed, or a new store has one empty chunk, which has a slot at least. -/
theorem start_cases {chunkSize : Nat} {result : Except (Failure TraceError) Builder}
    (h : start chunkSize m = (result, m')) :
    (∃ e, result = .error e) ∨
    (0 < chunkSize ∧ ∃ reservation, result = .ok
      { store := ⟨chunkSize, #[⟨chunkSize, #[], none, reservation⟩], none⟩, current := 0, slot := 0,
        depth := 0, reuse := false, verifier := m.safepoints.openScope.1 }) := by
  unfold start at h
  simp only at h
  split at h
  · rename_i hpaused
    obtain ⟨m₁, m₂, hallocate⟩ := Memory.of_paused_eq hpaused
    obtain ⟨hpos, reservation, rfl⟩ := Store.allocate_ok hallocate
    cases h
    exact .inr ⟨hpos, reservation, rfl⟩
  · cases h
    exact .inl ⟨_, rfl⟩

end Cases

/-- Of a used store, `Builder.finish` cuts off what lies behind the cursor. -/
theorem finish_of_reuse {b : Builder} (hreuse : b.reuse = true) (m : Memory) :
    (b.finish m).1 = { b.store with
      chunks := b.store.chunks.modify b.current ({ ·.clearFrom b.slot with next := none }) } := by
  simp only [finish, hreuse, if_true]

/-- `Builder.finish` leaves a new store as it is. -/
theorem finish_of_new {b : Builder} (hnew : b.reuse = false) (m : Memory) :
    (b.finish m).1 = b.store := by
  simp only [finish, hnew, Bool.false_eq_true, if_false]

/-- `Builder.finish` closes the scope of the builder and leaves the heap alone. -/
theorem snd_finish (b : Builder) (m : Memory) :
    (b.finish m).2 = { m with safepoints := m.safepoints.close b.verifier } := by
  unfold finish
  split <;> rfl

/-- `Builder.finish` leaves the size of the chunks. -/
theorem chunkSize_finish (b : Builder) (m : Memory) :
    (b.finish m).1.chunkSize = b.store.chunkSize := by
  unfold finish
  split <;> rfl

/-- `Builder.finish` leaves the marker. -/
theorem hiddenTop_finish (b : Builder) (m : Memory) :
    (b.finish m).1.hiddenTop = b.store.hiddenTop := by
  unfold finish
  split <;> rfl

/-- `Builder.finish` gives no chunk back. -/
theorem size_chunks_finish (b : Builder) (m : Memory) :
    (b.finish m).1.chunks.size = b.store.chunks.size := by
  cases hreuse : b.reuse with
  | true => rw [finish_of_reuse hreuse, Array.size_modify]
  | false => rw [finish_of_new hreuse]

end Builder

end StackTrace
