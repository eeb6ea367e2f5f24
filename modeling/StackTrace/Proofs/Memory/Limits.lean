import StackTrace.Proofs.Memory.NeverRefuses

/-!
# Memory under a limit

Under a limit below the largest word no charge saturates, so the limit is exact: an object is granted
if and only if it fits into what is left.  What was charged can be given back, in any order, and leaves
the heap as full as it was before.

An action that allocates one object does the same on any memory that grants the object, and nothing
on one that does not (`Memory.Asks`).  So two heaps on which the same action succeeds give the same
result, whatever else differs between them.

## Key results

- `Heap.admits_iff`: what a limit admits
- `Heap.used_releaseAll`: giving back what was charged
- `Memory.Asks.paused`: asking for an object while a builder pauses its scope
-/

namespace StackTrace

namespace Heap

/-- Under a limit below the largest word `Heap.admits` a charge exactly if it fits into what is left. -/
theorem admits_iff {h : Heap} {limit : Nat} (hlimit : h.limit = some limit)
    (hword : limit < maxWord) (bytes : Nat) :
    h.admits (saturatingAdd h.used bytes) = true ↔ h.used + bytes ≤ limit := by
  have hdecide : h.admits (saturatingAdd h.used bytes) =
      decide (saturatingAdd h.used bytes ≤ limit) := by
    rw [admits, hlimit, Option.all_some]
  rw [hdecide, decide_eq_true_iff, saturatingAdd]
  omega

/-- The bytes of several reservations. -/
def total : List Reservation → Nat
  | [] => 0
  | r :: rs => r.bytes + total rs

@[simp] theorem total_nil : total [] = 0 := rfl

@[simp] theorem total_cons (r : Reservation) (rs : List Reservation) :
    total (r :: rs) = r.bytes + total rs := rfl

theorem total_append (rs rs' : List Reservation) : total (rs ++ rs') = total rs + total rs' := by
  induction rs with
  | nil => simp
  | cons r rs ih => rw [List.cons_append, total_cons, total_cons, ih, Nat.add_assoc]

theorem total_replicate (n : Nat) (r : Reservation) : total (List.replicate n r) = n * r.bytes := by
  induction n with
  | zero => simp
  | succ n ih =>
    rw [List.replicate_succ, total_cons, ih, Nat.succ_mul, Nat.add_comm]

/-- `Heap.releaseAll` gives back what was charged on top of some bytes, and leaves these bytes. -/
theorem used_releaseAll {h : Heap} {rs : List Reservation} {bytes : Nat}
    (hused : h.used = bytes + total rs) (hword : h.used ≤ maxWord) :
    (h.releaseAll rs).used = bytes := by
  induction rs generalizing h with
  | nil => simpa using hused
  | cons r rs ih =>
    rw [total_cons] at hused
    have hrelease : (h.release r).used = h.used - r.bytes := used_release (by omega) hword
    rw [releaseAll_cons]
    apply ih
    · omega
    · omega

/-- `Heap.releaseAll` does not change the limit. -/
theorem limit_releaseAll (h : Heap) (rs : List Reservation) :
    (h.releaseAll rs).limit = h.limit := by
  induction rs generalizing h with
  | nil => rfl
  | cons r rs ih => rw [releaseAll_cons, ih, limit_release]

/-- `Heap.release` does not take an allocation off the count. -/
theorem allocations_release (h : Heap) (r : Reservation) :
    (h.release r).allocations = h.allocations := by
  unfold release
  rfl

/-- `Heap.releaseAll` does not take allocations off the count. -/
theorem allocations_releaseAll (h : Heap) (rs : List Reservation) :
    (h.releaseAll rs).allocations = h.allocations := by
  induction rs generalizing h with
  | nil => rfl
  | cons r rs ih => rw [releaseAll_cons, ih, allocations_release]

end Heap

namespace Memory

/-- `Memory.release` leaves the scopes alone. -/
theorem safepoints_release (m : Memory) (r : Reservation) :
    (m.release r).safepoints = m.safepoints := by
  unfold release
  rfl

/-- The action allocates one object of `bytes` bytes: where the object is granted, the action comes to
    `result`, and where it is not, to the refusal. -/
def Asks {α : Type} (action : Memory → Except (Failure OutOfMemory) α × Memory) (result : α)
    (bytes : Nat) : Prop :=
  ∀ m : Memory, m.safepoints.allowed = true → action m =
    if m.heap.admits (saturatingAdd m.heap.used bytes) then (.ok result, m.charged 1 bytes)
    else (.error (.error ⟨bytes, m.heap.available.getD 0⟩), m)

/-- `Memory.allocate` asks for its object, header and all. -/
theorem asks_allocate (payload : Nat) :
    Asks (·.allocate payload) ⟨objectBytes payload⟩ (objectBytes payload) := by
  intro m hallowed
  cases hadmits : m.heap.admits (saturatingAdd m.heap.used (objectBytes payload)) with
  | true =>
    simp only [allocate, hallowed, if_true, Heap.allocate_of_admits hadmits]
    rfl
  | false =>
    simp only [allocate, hallowed, if_true, Heap.allocate_of_not_admits hadmits,
      Bool.false_eq_true, if_false]

/-- `Asks` is not touched by what is made of the object afterwards. -/
theorem Asks.map {α β : Type} {action : Memory → Except (Failure OutOfMemory) α × Memory}
    {result : α} {bytes : Nat} (hasks : Asks action result bytes) (g : α → β)
    {action' : Memory → Except (Failure OutOfMemory) β × Memory}
    (heq : ∀ m, action' m =
      match action m with
      | (.ok a, m) => (.ok (g a), m)
      | (.error e, m) => (.error e, m)) : Asks action' (g result) bytes := by
  intro m hallowed
  have haction := hasks m hallowed
  by_cases hadmits : m.heap.admits (saturatingAdd m.heap.used bytes) = true
  · rw [if_pos hadmits] at haction ⊢
    rw [heq, haction]
  · rw [if_neg hadmits] at haction ⊢
    rw [heq, haction]

/-- `Memory.box` asks for an object of one byte. -/
theorem asks_box (value : Bool) :
    Asks (·.box value) ⟨value, ⟨objectBytes 1⟩⟩ (objectBytes 1) := by
  apply (asks_allocate 1).map (BoxedBool.mk value)
  intro m
  unfold box
  split <;> simp_all

/-- `Memory.paused` lets a builder ask for an object if its scope is the only one. -/
theorem Asks.paused {α : Type} {action : Memory → Except (Failure OutOfMemory) α × Memory}
    {result : α} {bytes : Nat} (hasks : Asks action result bytes) {m : Memory}
    (hdepth : m.safepoints.depth = 1) (v : Verifier) :
    m.paused v action =
      if m.heap.admits (saturatingAdd m.heap.used bytes) then (.ok result, m.charged 1 bytes)
      else (.error (.error ⟨bytes, m.heap.available.getD 0⟩), m) := by
  obtain ⟨heap, ⟨depth⟩⟩ := m
  simp only at hdepth
  subst hdepth
  have haction := hasks ⟨heap, Safepoints.idle⟩ rfl
  rw [paused_of_depth_one rfl]
  by_cases hadmits : heap.admits (saturatingAdd heap.used bytes) = true
  · rw [if_pos hadmits] at haction ⊢
    rw [haction]
    rfl
  · rw [if_neg hadmits] at haction ⊢
    rw [haction]
    rfl

end Memory

end StackTrace
