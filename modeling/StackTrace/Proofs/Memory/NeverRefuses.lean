import StackTrace.Memory.Basic

/-!
# Memory that never refuses

A heap refuses a charge only if it has a limit that the charge would pass.  Charges saturate at the
largest word, so a heap whose limit is not below that word, or that has none, grants every charge.
On a thread it also takes that no no-safepoint scope is open, or that the open one is paused.

## Key results

- `Heap.allocate_of_neverRefuses`: an allocation is granted and charges exactly its object
- `Memory.paused_of_charges`: what an action charges while a builder pauses its scope
-/

namespace StackTrace

/-- `saturatingAdd` of two summands in turn is that of their sum. -/
private theorem saturatingAdd_saturatingAdd (a b c : Nat) :
    saturatingAdd (saturatingAdd a b) c = saturatingAdd a (b + c) := by
  simp only [saturatingAdd]
  omega

namespace Heap

/-- The heap grants every charge: no limit is below `maxWord`.  What is charged is a word. -/
structure NeverRefuses (h : Heap) : Prop where
  limit_ge : ∀ l, h.limit = some l → maxWord ≤ l
  used_le : h.used ≤ maxWord

/-- The heap after `count` more objects, which take `bytes` bytes together. -/
def charged (h : Heap) (count bytes : Nat) : Heap :=
  { h with used := saturatingAdd h.used bytes, allocations := h.allocations + count }

/-- `Heap.charged` with nothing. -/
private theorem charged_zero {h : Heap} (hused : h.used ≤ maxWord) : h.charged 0 0 = h := by
  have hmin : min h.used maxWord = h.used := Nat.min_eq_left hused
  simp only [charged, saturatingAdd, Nat.add_zero, hmin]

/-- Charging twice with `Heap.charged` is charging the sums. -/
private theorem charged_charged (h : Heap) (c₁ b₁ c₂ b₂ : Nat) :
    (h.charged c₁ b₁).charged c₂ b₂ = h.charged (c₁ + c₂) (b₁ + b₂) := by
  simp only [charged, saturatingAdd_saturatingAdd, Nat.add_assoc]

/-- `Heap.release` does not change the limit. -/
theorem limit_release (h : Heap) (r : Reservation) : (h.release r).limit = h.limit := by
  unfold release
  rfl

/-- `Heap.release` leaves a figure that fits into a word. -/
theorem used_release_le (h : Heap) (r : Reservation) : (h.release r).used ≤ maxWord := by
  -- A release wraps around, so what is charged is a word again
  have hmod : ∀ n bound : Nat, n % (bound + 1) ≤ bound := fun n bound =>
    Nat.le_of_lt_add_one (Nat.mod_lt n (Nat.succ_pos bound))
  unfold release
  exact hmod _ _

namespace NeverRefuses

/-- `Heap.NeverRefuses` survives any charge. -/
theorem charged {h : Heap} (hh : h.NeverRefuses) (count bytes : Nat) :
    (h.charged count bytes).NeverRefuses where
  limit_ge := hh.limit_ge
  used_le := by
    simp only [Heap.charged, saturatingAdd]
    omega

/-- `Heap.NeverRefuses` survives a release. -/
private theorem release {h : Heap} (hh : h.NeverRefuses) (r : Reservation) :
    (h.release r).NeverRefuses where
  limit_ge := by
    rw [limit_release]
    exact hh.limit_ge
  used_le := used_release_le h r

/-- `Heap.NeverRefuses` survives any releases. -/
private theorem releaseAll {h : Heap} (hh : h.NeverRefuses) (rs : List Reservation) :
    (h.releaseAll rs).NeverRefuses := by
  induction rs generalizing h with
  | nil => exact hh
  | cons r rs ih =>
    rw [releaseAll_cons]
    exact ih (hh.release r)

/-- `Heap.NeverRefuses` admits whatever is charged with saturation. -/
theorem admits_saturatingAdd {h : Heap} (hh : h.NeverRefuses) (a b : Nat) :
    h.admits (saturatingAdd a b) = true := by
  -- Whatever the charge comes to, it does not pass the largest word
  have hle : saturatingAdd a b ≤ maxWord := Nat.min_le_right _ _
  cases hl : h.limit with
  | none => simp only [admits, hl, Option.all_none]
  | some l =>
    have hlimit := hh.limit_ge l hl
    simp only [admits, hl, Option.all_some, decide_eq_true_eq]
    omega

end NeverRefuses

/-- `Heap.allocate` on a heap that never refuses charges exactly its object. -/
theorem allocate_of_neverRefuses {h : Heap} (hh : h.NeverRefuses) (payload : Nat) :
    h.allocate payload = (.ok ⟨objectBytes payload⟩, h.charged 1 (objectBytes payload)) := by
  rw [allocate_of_admits (hh.admits_saturatingAdd _ _)]
  rfl

end Heap

namespace Memory

/-- Every allocation on the thread is granted: no no-safepoint scope is open, and the heap never refuses
    (`Heap.NeverRefuses`). -/
structure NeverRefuses (m : Memory) : Prop where
  heap : m.heap.NeverRefuses
  allowed : m.safepoints.allowed = true

/-- Exactly one no-safepoint scope is open and the heap never refuses: what a builder finds that was
    opened on memory with `NeverRefuses`. -/
structure NeverRefusesInScope (m : Memory) : Prop where
  heap : m.heap.NeverRefuses
  depth : m.safepoints.depth = 1

/-- The memory after `count` more objects, which take `bytes` bytes together, by `Heap.charged`. -/
def charged (m : Memory) (count bytes : Nat) : Memory :=
  { m with heap := m.heap.charged count bytes }

/-- `Memory.charged` with nothing. -/
theorem charged_zero {m : Memory} (hused : m.heap.used ≤ maxWord) : m.charged 0 0 = m := by
  simp only [charged, Heap.charged_zero hused]

/-- Charging twice with `Memory.charged` is charging the sums. -/
theorem charged_charged (m : Memory) (c₁ b₁ c₂ b₂ : Nat) :
    (m.charged c₁ b₁).charged c₂ b₂ = m.charged (c₁ + c₂) (b₁ + b₂) := by
  simp only [charged, Heap.charged_charged]

/-- `Memory.NeverRefuses` survives any releases. -/
theorem NeverRefuses.releaseAll {m : Memory} (hm : m.NeverRefuses) (rs : List Reservation) :
    (m.releaseAll rs).NeverRefuses where
  heap := hm.heap.releaseAll rs
  allowed := hm.allowed

/-- `NeverRefusesInScope` survives any charge. -/
theorem NeverRefusesInScope.charged {m : Memory} (hm : m.NeverRefusesInScope)
    (count bytes : Nat) : (m.charged count bytes).NeverRefusesInScope where
  heap := hm.heap.charged count bytes
  depth := hm.depth

/-- `Safepoints.openScope` turns `NeverRefuses` into `NeverRefusesInScope`. -/
theorem NeverRefuses.openScope {m : Memory} (hm : m.NeverRefuses) :
    NeverRefusesInScope { m with safepoints := m.safepoints.openScope.2 } where
  heap := hm.heap
  depth := by
    have hdepth := (Safepoints.allowed_iff m.safepoints).mp hm.allowed
    simp only [Safepoints.openScope, hdepth]

/-- `Memory.allocate` on memory that never refuses charges exactly its object. -/
theorem allocate_of_neverRefuses {m : Memory} (hm : m.NeverRefuses) (payload : Nat) :
    m.allocate payload = (.ok ⟨objectBytes payload⟩, m.charged 1 (objectBytes payload)) := by
  simp only [allocate, hm.allowed, if_true, Heap.allocate_of_neverRefuses hm.heap, charged]

/-- `Memory.box` on memory that never refuses charges exactly its object. -/
theorem box_of_neverRefuses {m : Memory} (hm : m.NeverRefuses) (value : Bool) :
    m.box value = (.ok ⟨value, ⟨objectBytes 1⟩⟩, m.charged 1 (objectBytes 1)) := by
  simp only [box, allocate_of_neverRefuses hm]

/-- `Memory.paused` runs an action on a thread without open scopes if the only open scope is the one
    that is paused. -/
theorem paused_of_depth_one {α : Type} {m : Memory} (hdepth : m.safepoints.depth = 1)
    (v : Verifier) (action : Memory → α × Memory) :
    m.paused v action =
      let (result, m') := action { m with safepoints := Safepoints.idle }
      (result, { m' with safepoints := ⟨m'.safepoints.depth + 1⟩ }) := by
  simp only [paused, Safepoints.pause, Safepoints.resume, hdepth]
  rfl

/-- `Memory.paused` of an action that only charges the heap does so, too. -/
theorem paused_of_charges {α : Type} {m : Memory} (hm : m.NeverRefusesInScope) (v : Verifier)
    {action : Memory → α × Memory} {result : α} {count bytes : Nat}
    (haction : ∀ m' : Memory, m'.NeverRefuses → action m' = (result, m'.charged count bytes)) :
    m.paused v action = (result, m.charged count bytes) := by
  have hidle : NeverRefuses { m with safepoints := Safepoints.idle } := ⟨hm.heap, rfl⟩
  -- The scope that the pause lifted is the only one, so it is open again afterwards
  have hdepth : m.safepoints = ⟨1⟩ := congrArg Safepoints.mk hm.depth
  rw [paused_of_depth_one hm.depth, haction _ hidle]
  simp only [charged, hdepth, Safepoints.idle, Nat.zero_add]

end Memory

end StackTrace
