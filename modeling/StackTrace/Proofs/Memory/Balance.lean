import StackTrace.Memory.Holdings
import StackTrace.Proofs.Memory.Limits
import StackTrace.Proofs.Table

/-!
# The books of the heap

Under a limit below the largest word the books balance: the bytes charged are those that the owners of
reservations hold together (`Heap.Balanced`).  An action that allocates either charges what its result
holds or fails and charges nothing (`Memory.Charges`), whatever scopes are open; giving back what is
held lowers the charge by as much.

## Key results

- `Heap.Balanced.releaseAll`: what is given back is no longer charged
- `Heap.allocate_withLimit_iff`: an exact limit makes no difference to what stays within it
- `Memory.charges_allocate`, `Memory.Charges.paused`: what an allocation charges
- `Holdings.balanced_reserve`, `Holdings.balanced_box`, `Holdings.balanced_free`: named holdings
-/

namespace StackTrace

namespace Heap

/-- The limit is exact, and `bytes` are charged. -/
structure Balanced (limit bytes : Nat) (h : Heap) : Prop where
  limit_eq : h.limit = some limit
  limit_lt : limit < maxWord
  used_eq : h.used = bytes
  used_le : h.used ≤ limit

section Balanced

variable {h : Heap} {limit bytes rest : Nat} {rs : List Reservation}

/-- `Balanced` with the same bytes, written otherwise. -/
theorem Balanced.of_eq (hh : h.Balanced limit bytes) (heq : bytes = rest) :
    h.Balanced limit rest := heq ▸ hh

/-- `Balanced` has no more on the books than the limit allows. -/
theorem Balanced.bytes_le (hh : h.Balanced limit bytes) : bytes ≤ limit := hh.used_eq ▸ hh.used_le

/-- `Heap.releaseAll` takes off the books what is given back. -/
theorem Balanced.releaseAll (hh : h.Balanced limit (total rs + rest)) :
    (h.releaseAll rs).Balanced limit rest := by
  have hlimit := hh.limit_lt
  have hused := hh.used_eq
  have hle := hh.used_le
  have hrest : (h.releaseAll rs).used = rest := used_releaseAll (by omega) (by omega)
  refine ⟨(limit_releaseAll h rs).trans hh.limit_eq, hlimit, hrest, ?_⟩
  rw [hrest]
  omega

end Balanced

/-- The same heap with another limit, or with none. -/
def withLimit (h : Heap) (limit : Option Nat) : Heap := { h with limit }

/-- A limit that refuses nothing: there is none, or it is not below `maxWord`. -/
def Unlimited (limit : Option Nat) : Prop := ∀ l, limit = some l → maxWord ≤ l

/-- `Heap.allocate` goes on charging without a limit as under it if and only if all that is charged
    then, header and all, stays within it. -/
theorem allocate_withLimit_iff {h : Heap} {limit bytes : Nat} (hh : h.Balanced limit bytes)
    {free : Option Nat} (hfree : Unlimited free) (payload : Nat) :
    (h.withLimit free).allocate payload =
        ((h.allocate payload).1, (h.allocate payload).2.withLimit free) ↔
      bytes + (payload + objectHeaderBytes) ≤ limit := by
  have hword := hh.limit_lt
  have hused := hh.used_eq
  have hle := hh.used_le
  -- Without a limit everything is granted, so the two agree exactly where the limit admits the object
  have hnever : (h.withLimit free).NeverRefuses := ⟨hfree, by simp only [withLimit]; omega⟩
  have hfits := admits_iff hh.limit_eq hword (objectBytes payload)
  -- An object that is cut off at the largest word is beyond the limit anyway
  have hexact : h.used + objectBytes payload ≤ limit ↔
      bytes + (payload + objectHeaderBytes) ≤ limit := by
    simp only [objectBytes, saturatingAdd]
    omega
  rw [← hexact, allocate_of_admits (hnever.admits_saturatingAdd _ _)]
  by_cases hadmits : h.admits (saturatingAdd h.used (objectBytes payload)) = true
  · rw [allocate_of_admits hadmits]
    exact ⟨fun _ => hfits.mp hadmits, fun _ => rfl⟩
  · have hfull : ¬h.used + objectBytes payload ≤ limit := mt hfits.mpr hadmits
    rw [allocate_of_not_admits (Bool.not_eq_true _ ▸ hadmits)]
    exact ⟨fun heq => by simp at heq, fun hroom => absurd hroom hfull⟩

/-- `Heap.releaseAll` takes no notice of the limit. -/
private theorem releaseAll_withLimit (h : Heap) (limit : Option Nat) (rs : List Reservation) :
    (h.withLimit limit).releaseAll rs = (h.releaseAll rs).withLimit limit := by
  induction rs generalizing h with
  | nil => rfl
  | cons r rs ih =>
    rw [releaseAll_cons, releaseAll_cons, ← ih]
    rfl

end Heap

namespace Memory

/-- Where the books balance, the action comes to `result` and charges what that holds, or it fails and
    charges nothing. -/
def Charges {ε α : Type} (action : Memory → Except ε α × Memory) (result : α) (bytes : Nat) : Prop :=
  ∀ ⦃limit rest : Nat⦄ ⦃m : Memory⦄, m.heap.Balanced limit rest →
    (∃ m', action m = (.ok result, m') ∧ m'.heap.Balanced limit (bytes + rest)) ∨
    (∃ e m', action m = (.error e, m') ∧ m'.heap.Balanced limit rest)

/-- `Memory.allocate` charges its object, header and all, or nothing. -/
theorem charges_allocate (payload : Nat) :
    Charges (·.allocate payload) ⟨objectBytes payload⟩ (objectBytes payload) := by
  intro limit rest m hm
  by_cases hallowed : m.safepoints.allowed = true
  · have hasked := asks_allocate payload m hallowed
    have hfits := Heap.admits_iff hm.limit_eq hm.limit_lt (objectBytes payload)
    split at hasked
    · -- The charge is exact, since it is not more than the limit
      rename_i hadmits
      refine .inl ⟨_, hasked, hm.limit_eq, hm.limit_lt, ?_, ?_⟩
      · have hroom := hfits.mp hadmits
        have hlimit := hm.limit_lt
        have hused := hm.used_eq
        simp only [charged, Heap.charged, saturatingAdd]
        omega
      · have hroom := hfits.mp hadmits
        simp only [charged, Heap.charged, saturatingAdd]
        omega
    -- A refusal, of the heap or in a scope, changes nothing
    · exact .inr ⟨_, m, hasked, hm⟩
  · exact .inr ⟨_, m, by simp only [allocate, hallowed, Bool.false_eq_true, if_false]; rfl, hm⟩

section Charges

variable {ε α : Type} {action : Memory → Except ε α × Memory} {result : α} {bytes : Nat}

/-- `Charges` is not touched by what is made of the result afterwards. -/
theorem Charges.map {β : Type} (hcharges : Charges action result bytes) (g : α → β)
    {action' : Memory → Except ε β × Memory}
    (heq : ∀ m, action' m =
      match action m with
      | (.ok a, m) => (.ok (g a), m)
      | (.error e, m) => (.error e, m)) : Charges action' (g result) bytes := by
  intro limit rest m hm
  rcases hcharges hm with ⟨m', haction, hm'⟩ | ⟨e, m', haction, hm'⟩
  · exact .inl ⟨m', by rw [heq, haction], hm'⟩
  · exact .inr ⟨e, m', by rw [heq, haction], hm'⟩

/-- `Memory.paused` charges what the action does: lifting a scope for a while is free. -/
theorem Charges.paused (hcharges : Charges action result bytes) (v : Verifier) :
    Charges (·.paused v action) result bytes := by
  intro limit rest m hm
  have hlifted : Heap.Balanced limit rest
      { m with safepoints := (m.safepoints.pause v).2 : Memory }.heap := hm
  rcases hcharges hlifted with ⟨m', haction, hm'⟩ | ⟨e, m', haction, hm'⟩
  · refine .inl ⟨{ m' with safepoints := (m'.safepoints.resume (m.safepoints.pause v).1).2 }, ?_, hm'⟩
    simp only [Memory.paused, haction]
  · refine .inr ⟨e, { m' with safepoints := (m'.safepoints.resume (m.safepoints.pause v).1).2 }, ?_,
      hm'⟩
    simp only [Memory.paused, haction]

end Charges

/-- `Memory.box` charges an object of one byte, or nothing. -/
theorem charges_box (value : Bool) :
    Charges (·.box value) ⟨value, ⟨objectBytes 1⟩⟩ (objectBytes 1) := by
  apply (charges_allocate 1).map (BoxedBool.mk value)
  intro m
  unfold box
  split <;> simp_all

end Memory

/-! ## Lifting a limit -/

namespace Memory

/-- The same memory with another limit on its heap, or with none. -/
def withLimit (m : Memory) (limit : Option Nat) : Memory :=
  { m with heap := m.heap.withLimit limit }

/-- The bytes that were granted to an action, by `bytes` of its result, none if it has failed. -/
def granted {ε α : Type} (bytes : α → Nat) : Except ε α → Nat
  | .ok a => bytes a
  | .error _ => 0

/-- `Memory.releaseAll` takes no notice of the limit. -/
theorem releaseAll_withLimit (m : Memory) (limit : Option Nat) (rs : List Reservation) :
    (m.withLimit limit).releaseAll rs = (m.releaseAll rs).withLimit limit :=
  congrArg (Memory.mk · m.safepoints) (m.heap.releaseAll_withLimit limit rs)

variable {m : Memory} {limit rest : Nat} {free : Option Nat}

/-- Under a limit, whatever is granted fits within it, for an action that `Memory.Charges` describes. -/
theorem Charges.granted_le {ε α : Type} {action : Memory → Except ε α × Memory} {result : α} {size : Nat}
    (hcharges : Charges action result size) (hm : m.heap.Balanced limit rest) (bytes : α → Nat)
    (hsize : bytes result = size) : rest + granted bytes (action m).1 ≤ limit := by
  rcases hcharges hm with ⟨m', hgranted, hm'⟩ | ⟨e, m', hrefused, -⟩
  · rw [hgranted, granted, hsize, Nat.add_comm]
    exact hm'.bytes_le
  · rw [hrefused]
    exact hm.bytes_le

/-- Without its limit `Memory.allocate` goes as under it, if what is granted then fits within it. -/
private theorem allocate_withLimit (hm : m.heap.Balanced limit rest) (hfree : Heap.Unlimited free)
    {payload : Nat}
    (hroom : rest + granted (·.bytes) ((m.withLimit free).allocate payload).1 ≤ limit) :
    (m.withLimit free).allocate payload =
      ((m.allocate payload).1, (m.allocate payload).2.withLimit free) := by
  cases hallowed : m.safepoints.allowed with
  | false =>
    -- The scope is looked at first, and the heap not at all
    simp only [allocate, withLimit, hallowed, Bool.false_eq_true, if_false]
  | true =>
    have hused := hm.used_eq
    have hle := hm.used_le
    have hword := hm.limit_lt
    have hnever : (m.withLimit free).NeverRefuses :=
      ⟨⟨hfree, by simp only [withLimit, Heap.withLimit]; omega⟩, hallowed⟩
    have hfits : rest + objectBytes payload ≤ limit := by
      rw [allocate_of_neverRefuses hnever] at hroom
      exact hroom
    have hexact : rest + (payload + objectHeaderBytes) ≤ limit := by
      simp only [objectBytes, saturatingAdd] at hfits
      omega
    have hheap := (Heap.allocate_withLimit_iff hm hfree payload).mpr hexact
    simp only [allocate, withLimit, hallowed, if_true, hheap]
    rcases m.heap.allocate payload with ⟨e | r, heap⟩
    · rfl
    · rfl

/-- Without its limit `Memory.box` goes as under it, if what is granted then fits within it. -/
private theorem box_withLimit (hm : m.heap.Balanced limit rest) (hfree : Heap.Unlimited free) {value : Bool}
    (hroom : rest + granted (·.reservation.bytes) ((m.withLimit free).box value).1 ≤ limit) :
    (m.withLimit free).box value = ((m.box value).1, (m.box value).2.withLimit free) := by
  -- A box is an allocation of one byte, and what is granted for the one is so for the other
  have hallocate : (m.withLimit free).allocate 1 =
      ((m.allocate 1).1, (m.allocate 1).2.withLimit free) := by
    apply allocate_withLimit hm hfree
    unfold box at hroom
    rcases hresult : (m.withLimit free).allocate 1 with ⟨e | r, memory⟩
    · rw [hresult] at hroom
      exact hroom
    · rw [hresult] at hroom
      exact hroom
  unfold box
  rw [hallocate]
  rcases m.allocate 1 with ⟨e | r, memory⟩
  · rfl
  · rfl

end Memory

/-! ## Named holdings -/

namespace Holdings

/-- The bytes that are held by name. -/
def held (h : Holdings) : Nat :=
  (h.reservations.values.map (·.bytes)).sum + (h.boxes.values.map (·.reservation.bytes)).sum

variable {h : Holdings} {m : Memory} {limit rest : Nat}

/-- `Heap.total` of a reservation that may be there. -/
private theorem total_toList (o : Option Reservation) : Heap.total o.toList = (o.map (·.bytes)).getD 0 := by
  cases o with
  | none => rfl
  | some r => simp

/-- `Holdings.reserve` keeps the books, whether it is granted or refused. -/
theorem balanced_reserve (hm : m.heap.Balanced limit (h.held + rest)) (name : String)
    (payload : Nat) : (h.reserve m name payload).2.2.heap.Balanced limit
      ((h.reserve m name payload).2.1.held + rest) := by
  rcases Memory.charges_allocate payload hm with ⟨m', hallocate, hm'⟩ | ⟨e, m', hallocate, hm'⟩
  · simp only [reserve, hallocate]
    refine Heap.Balanced.releaseAll (hm'.of_eq ?_)
    have hsum := h.reservations.sum_values name (·.bytes)
    simp only [held, total_toList, Table.values_insert, List.map_cons, List.sum_cons]
    omega
  · simp only [reserve, hallocate]
    exact hm'

/-- `Holdings.box` keeps the books, whether it is granted or refused. -/
theorem balanced_box (hm : m.heap.Balanced limit (h.held + rest)) (name : String) (value : Bool) :
    (h.box m name value).2.2.heap.Balanced limit ((h.box m name value).2.1.held + rest) := by
  rcases Memory.charges_box value hm with ⟨m', hbox, hm'⟩ | ⟨e, m', hbox, hm'⟩
  · simp only [box, hbox]
    refine Heap.Balanced.releaseAll (hm'.of_eq ?_)
    have hsum := h.boxes.sum_values name (·.reservation.bytes)
    simp only [held, total_toList, Table.values_insert, List.map_cons, List.sum_cons,
      Option.map_map, Function.comp_def]
    omega
  · simp only [box, hbox]
    exact hm'

/-- `Holdings.free` gives back what was held under the name. -/
theorem balanced_free (hm : m.heap.Balanced limit (h.held + rest)) (name : String) :
    (h.free m name).2.2.heap.Balanced limit ((h.free m name).2.1.held + rest) := by
  simp only [free]
  refine Heap.Balanced.releaseAll (hm.of_eq ?_)
  have hreservations := h.reservations.sum_values name (·.bytes)
  have hboxes := h.boxes.sum_values name (·.reservation.bytes)
  simp only [held, Heap.total_append, total_toList, Option.map_map, Function.comp_def]
  omega

/-! ### Lifting a limit -/

variable {free : Option Nat}

/-- Without its limit `Holdings.reserve` goes as under it, if what is granted then fits within it. -/
theorem reserve_withLimit (hm : m.heap.Balanced limit rest) (hfree : Heap.Unlimited free)
    (h : Holdings) (name : String) {payload : Nat}
    (hroom : rest + Memory.granted (·.bytes) ((m.withLimit free).allocate payload).1 ≤ limit) :
    h.reserve (m.withLimit free) name payload =
      ((h.reserve m name payload).1, (h.reserve m name payload).2.1,
        (h.reserve m name payload).2.2.withLimit free) := by
  simp only [reserve, Memory.allocate_withLimit hm hfree hroom]
  rcases m.allocate payload with ⟨e | r, memory⟩
  · rfl
  · simp only [Memory.releaseAll_withLimit]

/-- Without its limit `Holdings.box` goes as under it, if what is granted then fits within it. -/
theorem box_withLimit (hm : m.heap.Balanced limit rest) (hfree : Heap.Unlimited free) (h : Holdings)
    (name : String) {value : Bool}
    (hroom : rest +
      Memory.granted (·.reservation.bytes) ((m.withLimit free).box value).1 ≤ limit) :
    h.box (m.withLimit free) name value =
      ((h.box m name value).1, (h.box m name value).2.1,
        (h.box m name value).2.2.withLimit free) := by
  simp only [box, Memory.box_withLimit hm hfree hroom]
  rcases m.box value with ⟨e | b, memory⟩
  · rfl
  · simp only [Memory.releaseAll_withLimit]

/-- `Holdings.free` takes no notice of the limit. -/
theorem free_withLimit (h : Holdings) (m : Memory) (name : String) (limit : Option Nat) :
    h.free (m.withLimit limit) name =
      ((h.free m name).1, (h.free m name).2.1, (h.free m name).2.2.withLimit limit) := by
  simp only [free, Memory.releaseAll_withLimit]

end Holdings

end StackTrace
