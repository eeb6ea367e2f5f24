import Mathlib.Data.List.Induction
import Mathlib.Data.List.Perm.Basic
import Mathlib.Data.Nat.ModEq
import StackTrace.Proofs.Memory.Limits

/-!
# The ledger of a heap

Reservations and boxed booleans are made and dropped in any order.  A `Ledger` is a heap together with
the objects that are alive on it, so what the heap has charged can be compared with what these objects
add up to.

A charge stops at the largest word, while a release takes the whole object back.  So the two figures
differ by the bytes that were cut off from charges, counted modulo the size of a word
(`Ledger.Sound.used_mod`).  Below a limit that is less than the largest word nothing is ever cut off and
the books are exact; without a limit they are exact as long as the objects alive fit into one word.

## Key results

- `Ledger.Sound.enter`, `Ledger.Sound.drop`: what an object made, refused or dropped does to the books
- `Ledger.cutOff_run_eq_zero_iff`: when nothing has been cut off
- `Ledger.exact_of_run`: a bounded heap, in every run
- `Ledger.undone_of_run`: an unbounded heap, in every run
-/

namespace StackTrace

/-- An object on the heap. -/
inductive HeapObject where
  | block (r : Reservation)
  | box (b : BoxedBool)

namespace HeapObject

/-- What the object has charged. -/
def reservation : HeapObject → Reservation
  | block r => r
  | box b => b.reservation

/-- The bytes of the `reservation`. -/
def bytes (o : HeapObject) : Nat := o.reservation.bytes

end HeapObject

/-- What is asked of a heap. -/
inductive HeapRequest where
  | allocate (payload : Nat)
  | box (value : Bool)
  /-- Drops the object at place `i` among those that are alive; nothing happens if there is none. -/
  | drop (i : Nat)

/-- A heap in use, by a thread without open scopes. -/
structure Ledger where
  memory : Memory
  /-- The objects that are alive, latest first. -/
  live : List HeapObject
  /-- The number of objects ever made. -/
  granted : Nat
  /-- The bytes of all these objects that were not charged, because the charge was at the largest
      word. -/
  cutOff : Nat

namespace Ledger

/-- Nothing has been made yet. -/
def ofLimit (limit : Option Nat) : Ledger := ⟨Memory.ofLimit limit, [], 0, 0⟩

/-- The bytes charged to the heap. -/
def used (l : Ledger) : Nat := l.memory.heap.used

/-- The exact sum of `HeapObject.bytes` of all objects that are alive. -/
def liveBytes (l : Ledger) : Nat := (l.live.map HeapObject.bytes).sum

/-- Enters what an allocation has come to, as the object that `object` makes of it. -/
def enter {α : Type} (l : Ledger) (object : α → HeapObject) :
    Except (Failure OutOfMemory) α × Memory → Ledger
  | (.ok a, memory) =>
    { memory
      live := object a :: l.live
      granted := l.granted + 1
      cutOff := l.cutOff + (l.used + (object a).bytes - memory.heap.used) }
  | (.error _, memory) => { l with memory }

/-- Drops the object at place `i`, which gives its charge back. -/
def drop (l : Ledger) (i : Nat) : Ledger :=
  match l.live[i]? with
  | none => l
  | some o => { l with memory := l.memory.release o.reservation, live := l.live.eraseIdx i }

/-- The ledger after one `HeapRequest`, whether that is granted or not. -/
def step (l : Ledger) : HeapRequest → Ledger
  | .allocate payload => l.enter .block (l.memory.allocate payload)
  | .box value => l.enter .box (l.memory.box value)
  | .drop i => l.drop i

/-- The ledger after `Ledger.step` of some requests to a new heap. -/
def run (limit : Option Nat) (requests : List HeapRequest) : Ledger :=
  requests.foldl step (ofLimit limit)

/-- `Ledger.run` ends with the step of its last request. -/
private theorem run_append_singleton (limit : Option Nat) (requests : List HeapRequest) (r : HeapRequest) :
    run limit (requests ++ [r]) = (run limit requests).step r := by
  rw [run, List.foldl_append]
  rfl

/-! ## The books -/

/-- The state of a ledger between two requests. -/
structure Sound (limit : Option Nat) (l : Ledger) : Prop where
  limit_eq : l.memory.heap.limit = limit
  safepoints_eq : l.memory.safepoints = Safepoints.idle
  allocations_eq : l.memory.heap.allocations = l.granted
  used_le : l.used ≤ maxWord
  bytes_le : ∀ o ∈ l.live, o.bytes ≤ maxWord
  /-- What was cut off is all that the books lack, up to a multiple of the size of a word. -/
  used_mod : (l.used + l.cutOff) % (maxWord + 1) = l.liveBytes % (maxWord + 1)
  used_eq : l.cutOff = 0 → l.used = l.liveBytes

/-- `Ledger.ofLimit` is sound: nothing is alive, and nothing charged. -/
private theorem sound_ofLimit (limit : Option Nat) : (ofLimit limit).Sound limit where
  limit_eq := rfl
  safepoints_eq := rfl
  allocations_eq := rfl
  used_le := Nat.zero_le _
  bytes_le := nofun
  used_mod := by simp only [used, liveBytes, ofLimit, Memory.ofLimit, Heap.ofLimit, List.map_nil,
    List.sum_nil, Nat.add_zero]
  used_eq := fun _ => rfl

section Sound

variable {limit : Option Nat} {l : Ledger} {α : Type} {result : α} {bytes : Nat}
  {action : Memory → Except (Failure OutOfMemory) α × Memory}

/-- `Ledger.Sound` has no scope open, so allocations are allowed. -/
private theorem Sound.allowed (h : l.Sound limit) : l.memory.safepoints.allowed = true := by
  rw [h.safepoints_eq]
  rfl

/-- `Ledger.enter` puts an object that is granted to those alive; one that is refused leaves no
    trace. -/
private theorem Sound.enter_eq (h : l.Sound limit) (hasks : Memory.Asks action result bytes)
    (object : α → HeapObject) : l.enter object (action l.memory) =
      if l.memory.heap.admits (saturatingAdd l.memory.heap.used bytes) then
        { memory := l.memory.charged 1 bytes
          live := object result :: l.live
          granted := l.granted + 1
          cutOff := l.cutOff + (l.used + (object result).bytes - saturatingAdd l.used bytes) }
      else l := by
  rw [hasks l.memory h.allowed]
  split
  · rfl
  · rfl

/-- `Ledger.enter` keeps the books, whether an object is made or refused. -/
theorem Sound.enter (h : l.Sound limit) (hasks : Memory.Asks action result bytes)
    {object : α → HeapObject} (hobject : (object result).bytes = bytes) (hword : bytes ≤ maxWord) :
    (l.enter object (action l.memory)).Sound limit := by
  rw [h.enter_eq hasks, hobject]
  split
  · have hsum : ((object result :: l.live).map HeapObject.bytes).sum = bytes + l.liveBytes := by
      rw [List.map_cons, List.sum_cons, hobject, liveBytes]
    have hmod := h.used_mod
    -- Granted: the fields of `Sound` in their order; the last two are about the figure that is charged
    refine ⟨h.limit_eq, h.safepoints_eq, congrArg (· + 1) h.allocations_eq, Nat.min_le_right _ _,
      List.forall_mem_cons.mpr ⟨hobject ▸ hword, h.bytes_le⟩, ?_, fun hnone => ?_⟩
    · -- What the charge lacks is what was cut off
      simp only [used, liveBytes, hsum, Memory.charged, Heap.charged, saturatingAdd] at hmod ⊢
      simp only [maxWord] at hmod ⊢
      omega
    · have hexact : l.used = l.liveBytes := h.used_eq (by simp only at hnone; omega)
      simp only [used, liveBytes, hsum, Memory.charged, Heap.charged, saturatingAdd]
        at hnone hexact ⊢
      omega
  · exact h

/-- Taking `bytes` off a figure that wraps around leaves what the rest comes to, modulo its size. -/
private theorem wrap_mod {size used bytes cut rest : Nat} (hle : bytes ≤ size)
    (hmod : (used + cut) % size = (rest + bytes) % size) :
    ((used + size - bytes) % size + cut) % size = rest % size := by
  rw [Nat.mod_add_mod]
  apply Nat.ModEq.add_right_cancel' bytes
  rw [Nat.ModEq, ← hmod, ← Nat.add_mod_right (used + cut) size]
  congr 1
  omega

/-- `Ledger.liveBytes` is an object that is alive and what the others come to. -/
private theorem liveBytes_of_getElem? {i : Nat} {o : HeapObject} (hi : l.live[i]? = some o) :
    l.liveBytes = o.bytes + ((l.live.eraseIdx i).map HeapObject.bytes).sum := by
  obtain ⟨hlt, rfl⟩ := List.getElem?_eq_some_iff.mp hi
  have hperm := (List.getElem_cons_eraseIdx_perm hlt).map HeapObject.bytes
  rw [liveBytes, ← hperm.sum_nat, List.map_cons, List.sum_cons]

/-- `Ledger.drop` of an object that is alive gives back its reservation. -/
private theorem drop_of_getElem? {i : Nat} {o : HeapObject} (hi : l.live[i]? = some o) :
    l.drop i =
      { l with memory := l.memory.release o.reservation, live := l.live.eraseIdx i } := by
  rw [drop, hi]

/-- `Ledger.drop` of an object that is alive, as the heap sees it. -/
private theorem heap_drop_of_getElem? {i : Nat} {o : HeapObject} (hi : l.live[i]? = some o) :
    (l.drop i).memory.heap = l.memory.heap.release o.reservation := by
  rw [drop_of_getElem? hi, Memory.release]

/-- `Ledger.drop` takes back just the bytes of an object that is alive, as long as nothing was cut
    off. -/
private theorem Sound.used_drop (h : l.Sound limit) (hexact : l.cutOff = 0) {i : Nat} {o : HeapObject}
    (hi : l.live[i]? = some o) : o.bytes ≤ l.used ∧ (l.drop i).used = l.used - o.bytes := by
  have hsum := liveBytes_of_getElem? hi
  have hused := h.used_eq hexact
  have hle : o.reservation.bytes ≤ l.memory.heap.used := by
    simp only [used, HeapObject.bytes] at hused hsum
    omega
  refine ⟨hle, ?_⟩
  rw [used, heap_drop_of_getElem? hi, Heap.used_release hle h.used_le, used, HeapObject.bytes]

/-- `Ledger.drop` keeps the books, whatever is dropped, and in whatever order. -/
theorem Sound.drop (h : l.Sound limit) (i : Nat) : (l.drop i).Sound limit := by
  cases hi : l.live[i]? with
  | none =>
    rw [Ledger.drop, hi]
    exact h
  | some o =>
    have hsum := liveBytes_of_getElem? hi
    have hafter : (l.drop i).liveBytes + o.bytes = l.liveBytes := by
      rw [hsum, drop_of_getElem? hi, liveBytes, Nat.add_comm]
    have hheap := heap_drop_of_getElem? hi
    have hcutOff : (l.drop i).cutOff = l.cutOff := by rw [drop_of_getElem? hi]
    -- Dropping changes what is charged and what is alive, so the first five fields are as before
    refine ⟨?_, ?_, ?_, ?_, ?_, ?_, fun hexact => ?_⟩
    · rw [hheap, Heap.limit_release]
      exact h.limit_eq
    · rw [drop_of_getElem? hi, Memory.safepoints_release]
      exact h.safepoints_eq
    · rw [hheap, Heap.allocations_release, h.allocations_eq, drop_of_getElem? hi]
    · rw [used, hheap]
      exact Heap.used_release_le _ _
    · rw [drop_of_getElem? hi]
      exact fun o' ho' => h.bytes_le o' (List.mem_of_mem_eraseIdx ho')
    · -- The release may wrap below zero, which changes nothing modulo a word
      have hword := h.bytes_le o (List.mem_of_getElem? hi)
      have hmod := h.used_mod
      rw [← hafter] at hmod
      rw [used, hheap, hcutOff, Heap.release]
      exact wrap_mod (Nat.le_trans hword (Nat.le_add_right maxWord 1)) hmod
    · rw [hcutOff] at hexact
      rw [(h.used_drop hexact hi).2, h.used_eq hexact, ← hafter, Nat.add_sub_cancel]

end Sound

/-- `objectBytes` is cut off at the largest word. -/
private theorem objectBytes_le (payload : Nat) : objectBytes payload ≤ maxWord := Nat.min_le_right _ _

/-- `Ledger.step` keeps `Ledger.Sound`. -/
private theorem Sound.step {limit : Option Nat} {l : Ledger} (h : l.Sound limit) (r : HeapRequest) :
    (l.step r).Sound limit := by
  cases r with
  | allocate payload => exact h.enter (Memory.asks_allocate payload) rfl (objectBytes_le payload)
  | box value => exact h.enter (Memory.asks_box value) rfl (objectBytes_le 1)
  | drop i => exact h.drop i

/-- `Ledger.run` leads to `Ledger.Sound` states only. -/
theorem sound_run (limit : Option Nat) (requests : List HeapRequest) :
    (run limit requests).Sound limit := by
  induction requests using List.reverseRecOn with
  | nil => exact sound_ofLimit limit
  | append_singleton requests r ih =>
    rw [run_append_singleton]
    exact ih.step r

/-! ## What is cut off -/

section CutOff

variable {limit : Option Nat} {l : Ledger} {α : Type} {result : α} {bytes : Nat}
  {action : Memory → Except (Failure OutOfMemory) α × Memory}

/-- `Ledger.enter` cuts nothing off a charge if all that is alive afterwards fits into a word. -/
private theorem Sound.cutOff_enter (h : l.Sound limit) (hasks : Memory.Asks action result bytes)
    {object : α → HeapObject} (hobject : (object result).bytes = bytes) (hexact : l.cutOff = 0)
    (hfits : (l.enter object (action l.memory)).liveBytes ≤ maxWord) :
    (l.enter object (action l.memory)).cutOff = 0 := by
  have hused := h.used_eq hexact
  rw [h.enter_eq hasks, hobject] at hfits ⊢
  split at hfits
  · rename_i hadmits
    rw [if_pos hadmits]
    simp only [liveBytes, List.map_cons, List.sum_cons, hobject] at hfits hused
    simp only [hexact, hused, saturatingAdd]
    omega
  · rename_i hrefused
    rw [if_neg hrefused]
    exact hexact

/-- `Ledger.drop` makes no more bytes alive, and cuts nothing off. -/
private theorem drop_le (l : Ledger) (i : Nat) :
    (l.drop i).liveBytes ≤ l.liveBytes ∧ (l.drop i).cutOff = l.cutOff := by
  cases hi : l.live[i]? with
  | none =>
    rw [drop, hi]
    exact ⟨Nat.le_refl _, rfl⟩
  | some o =>
    rw [liveBytes_of_getElem? hi, drop_of_getElem? hi]
    exact ⟨Nat.le_add_left _ _, rfl⟩

/-- `Ledger.step` cuts nothing off a charge if all that is alive afterwards fits into a word. -/
private theorem Sound.cutOff_step (h : l.Sound limit) (hexact : l.cutOff = 0) (r : HeapRequest)
    (hfits : (l.step r).liveBytes ≤ maxWord) : (l.step r).cutOff = 0 := by
  cases r with
  | allocate payload => exact h.cutOff_enter (Memory.asks_allocate payload) rfl hexact hfits
  | box value => exact h.cutOff_enter (Memory.asks_box value) rfl hexact hfits
  | drop i => exact (l.drop_le i).2.trans hexact

/-- `Ledger.step` does not take back what was cut off. -/
private theorem cutOff_le_step (l : Ledger) (r : HeapRequest) : l.cutOff ≤ (l.step r).cutOff := by
  have henter : ∀ {β : Type} (object : β → HeapObject) (x : Except (Failure OutOfMemory) β × Memory),
      l.cutOff ≤ (l.enter object x).cutOff := by
    rintro β object ⟨a | a, memory⟩
    · exact Nat.le_refl _
    · exact Nat.le_add_right _ _
  cases r with
  | allocate payload => exact henter _ _
  | box value => exact henter _ _
  | drop i => exact Nat.le_of_eq (l.drop_le i).2.symm

/-- `Ledger.run` has cut nothing off exactly if the objects alive have fitted into a word at all
    times. -/
theorem cutOff_run_eq_zero_iff (limit : Option Nat) (requests : List HeapRequest) :
    (run limit requests).cutOff = 0 ↔
      ∀ earlier, earlier <+: requests → (run limit earlier).liveBytes ≤ maxWord := by
  -- Induction on the requests from the last one backwards, as a prefix leaves that one out or has it
  induction requests using List.reverseRecOn with
  | nil =>
    refine iff_of_true rfl fun earlier hearlier => ?_
    rw [List.prefix_nil.mp hearlier]
    exact Nat.zero_le _
  | append_singleton requests r ih =>
    have hsound := sound_run limit (requests ++ [r])
    constructor
    · intro hexact earlier hearlier
      rcases List.prefix_concat_iff.mp hearlier with rfl | hearlier
      -- The whole run: what is charged is exact, and no charge is above a word
      · rw [← hsound.used_eq hexact]
        exact hsound.used_le
      · have hle := (run limit requests).cutOff_le_step r
        rw [← run_append_singleton, hexact] at hle
        exact ih.mp (Nat.le_zero.mp hle) earlier hearlier
    · intro hfits
      have hbefore := ih.mpr fun earlier hearlier =>
        hfits earlier (hearlier.trans (List.prefix_append _ _))
      have hafter := hfits _ (List.prefix_refl _)
      rw [run_append_singleton] at hafter ⊢
      exact (sound_run limit requests).cutOff_step hbefore r hafter

end CutOff

/-! ## Bounded heaps -/

/-- The objects alive stay within `limit`, and nothing was ever cut off. -/
structure Within (limit : Nat) (l : Ledger) : Prop where
  liveBytes_le : l.liveBytes ≤ limit
  cutOff_eq : l.cutOff = 0

section Within

variable {limit : Nat} {l : Ledger} {α : Type} {result : α} {bytes : Nat}
  {action : Memory → Except (Failure OutOfMemory) α × Memory}

/-- Within a limit an object that `Memory.Asks` for is granted exactly if it fits beside those that are
    alive. -/
private theorem Within.asked (h : l.Within limit) (hl : l.Sound (some limit)) (hword : limit < maxWord)
    (hasks : Memory.Asks action result bytes) :
    action l.memory =
      if l.liveBytes + bytes ≤ limit then
        (.ok result, { l.memory with heap := ⟨some limit, l.liveBytes + bytes, l.granted + 1⟩ })
      else (.error (.error ⟨bytes, limit - l.used⟩), l.memory) := by
  have hused : l.memory.heap.used = l.liveBytes := hl.used_eq h.cutOff_eq
  have hadmits := Heap.admits_iff hl.limit_eq hword bytes
  rw [hused] at hadmits
  rw [hasks l.memory hl.allowed, hused]
  by_cases hfits : l.liveBytes + bytes ≤ limit
  · have hexact : saturatingAdd l.liveBytes bytes = l.liveBytes + bytes :=
      Nat.min_eq_left (by omega)
    rw [if_pos hfits, if_pos (hadmits.mpr hfits), Memory.charged, Heap.charged, hused, hexact,
      hl.limit_eq, hl.allocations_eq]
  · rw [if_neg hfits, if_neg (mt hadmits.mp hfits), Heap.available, hl.limit_eq]
    rfl

/-- `Ledger.enter` keeps `Ledger.Within`: an object that would not fit is refused. -/
theorem Within.enter (h : l.Within limit) (hl : l.Sound (some limit)) (hword : limit < maxWord)
    (hasks : Memory.Asks action result bytes) {object : α → HeapObject}
    (hobject : (object result).bytes = bytes) :
    (l.enter object (action l.memory)).Within limit := by
  have hle : (l.enter object (action l.memory)).liveBytes ≤ limit := by
    rw [h.asked hl hword hasks]
    split
    · simp only [Ledger.enter, liveBytes, List.map_cons, List.sum_cons, hobject] at *
      omega
    · exact h.liveBytes_le
  exact ⟨hle, hl.cutOff_enter hasks hobject h.cutOff_eq (by omega)⟩

/-- `Ledger.step` keeps `Ledger.Within`. -/
private theorem Within.step (h : l.Within limit) (hl : l.Sound (some limit)) (hword : limit < maxWord)
    (r : HeapRequest) : (l.step r).Within limit := by
  cases r with
  | allocate payload => exact h.enter hl hword (Memory.asks_allocate payload) rfl
  | box value => exact h.enter hl hword (Memory.asks_box value) rfl
  | drop i =>
    obtain ⟨hle, hcutOff⟩ := l.drop_le i
    exact ⟨hle.trans h.liveBytes_le, hcutOff.trans h.cutOff_eq⟩

/-- `Ledger.run` stays within a limit below the largest word. -/
theorem within_run (hword : limit < maxWord) (requests : List HeapRequest) :
    (run (some limit) requests).Within limit := by
  induction requests using List.reverseRecOn with
  | nil => exact ⟨Nat.zero_le _, rfl⟩
  | append_singleton requests r ih =>
    rw [run_append_singleton]
    exact ih.step (sound_run _ _) hword r

end Within

/-- `Ledger.used` is the exact sum of the objects alive, on a heap with a limit below the largest word,
    whatever was made and dropped before; it is within the limit, and the allocations that succeeded
    have been counted.  `Memory.allocate` and `Memory.box` grant a further object exactly if it fits
    beside those alive, header and all; if not, the refusal says what was asked for and what is left,
    and nothing changes. -/
theorem exact_of_run {limit : Nat} (hword : limit < maxWord) (requests : List HeapRequest) :
    let l := run (some limit) requests
    l.used = l.liveBytes ∧ l.used ≤ limit ∧ l.memory.heap.available = some (limit - l.used) ∧
    l.memory.heap.allocations = l.granted ∧
    (∀ payload, l.memory.allocate payload =
      if l.liveBytes + payload + 16 ≤ limit then
        (.ok ⟨payload + 16⟩,
          { l.memory with heap := ⟨some limit, l.liveBytes + (payload + 16), l.granted + 1⟩ })
      else (.error (.error ⟨min (payload + 16) maxWord, limit - l.used⟩), l.memory)) ∧
    ∀ value, l.memory.box value =
      if l.liveBytes + 17 ≤ limit then
        (.ok ⟨value, ⟨17⟩⟩,
          { l.memory with heap := ⟨some limit, l.liveBytes + 17, l.granted + 1⟩ })
      else (.error (.error ⟨17, limit - l.used⟩), l.memory) := by
  intro l
  have hl : l.Sound (some limit) := sound_run _ _
  have hwithin : l.Within limit := within_run hword requests
  have hused : l.used = l.liveBytes := hl.used_eq hwithin.cutOff_eq
  refine ⟨hused, hused ▸ hwithin.liveBytes_le, ?_, hl.allocations_eq, fun payload => ?_,
    fun value => ?_⟩
  · rw [Heap.available, hl.limit_eq]
    rfl
  · -- An object whose size is cut off at the largest word does not fit, and one that fits is not
    have hasked := hwithin.asked hl hword (Memory.asks_allocate payload)
    have hbytes : objectBytes payload = min (payload + 16) maxWord := rfl
    by_cases hfits : l.liveBytes + payload + 16 ≤ limit
    · rw [hbytes, Nat.min_eq_left (by omega), if_pos (by omega)] at hasked
      rw [if_pos hfits]
      exact hasked
    · rw [hbytes, if_neg (by omega)] at hasked
      rw [if_neg hfits]
      exact hasked
  · exact hwithin.asked hl hword (Memory.asks_box value)

/-- `exact_of_run` for a heap of 64 bytes.  Of two objects of 48 bytes the second is refused; once the
    first is dropped, a box and an object of 47 bytes fill the heap, and not even an empty object is
    granted any more. -/
theorem exact_of_run_filled :
    let l := run (some 64) [.allocate 32, .allocate 32, .drop 0, .box true, .allocate 31]
    64 < maxWord ∧ l.used = 64 ∧ l.memory.heap.allocations = 3 ∧
      l.memory.allocate 0 = (.error (.error ⟨16, 0⟩), l.memory) := by
  intro l
  have hword : 64 < maxWord := by decide
  have hlive : l.liveBytes = 64 := by decide
  have hgranted : l.granted = 3 := by decide
  obtain ⟨hused, -, -, hcount, hallocate, -⟩ : l.used = l.liveBytes ∧ _ := exact_of_run hword
    [.allocate 32, .allocate 32, .drop 0, .box true, .allocate 31]
  have hover : ¬ l.liveBytes + 0 + 16 ≤ 64 := by omega
  refine ⟨hword, hused.trans hlive, hcount.trans hgranted, ?_⟩
  rw [hallocate 0, if_neg hover, hused, hlive]
  rfl

/-! ## Unbounded heaps -/

/-- `Ledger.used` on a heap without a limit, where every object is granted, is the exact sum of the
    objects alive less what was cut off from charges, up to a multiple of the size of a word.  As long
    as the objects alive have fitted into a word at all times, and only then, nothing was cut off:
    `Ledger.drop` of an object then takes back just its bytes, without wrapping below zero.  Once all
    objects have been dropped nothing is charged exactly if what was cut off comes to a multiple of the
    size of a word. -/
theorem undone_of_run (requests : List HeapRequest) :
    let l := run none requests
    (∀ payload, ∃ m, l.memory.allocate payload = (.ok ⟨min (payload + 16) maxWord⟩, m)) ∧
    (∀ value, ∃ m, l.memory.box value = (.ok ⟨value, ⟨17⟩⟩, m)) ∧
    (l.used + l.cutOff) % (maxWord + 1) = l.liveBytes % (maxWord + 1) ∧
    (l.cutOff = 0 ↔ ∀ earlier, earlier <+: requests → (run none earlier).liveBytes ≤ maxWord) ∧
    (l.cutOff = 0 → l.used = l.liveBytes ∧ ∀ i o, l.live[i]? = some o →
      o.bytes ≤ l.used ∧ (l.drop i).used = l.used - o.bytes) ∧
    (l.live = [] → (l.used = 0 ↔ (maxWord + 1) ∣ l.cutOff)) := by
  intro l
  have hl : l.Sound none := sound_run _ _
  have hgrants : l.memory.NeverRefuses :=
    ⟨⟨fun limit hlimit => by simp [hl.limit_eq] at hlimit, hl.used_le⟩, hl.allowed⟩
  refine ⟨fun payload => ⟨_, Memory.allocate_of_neverRefuses hgrants payload⟩,
    fun value => ⟨_, Memory.box_of_neverRefuses hgrants value⟩, hl.used_mod,
    cutOff_run_eq_zero_iff none requests, fun hexact => ⟨hl.used_eq hexact, fun i o hi => ?_⟩,
    fun hnone => ?_⟩
  · exact hl.used_drop hexact hi
  · have hzero : l.liveBytes = 0 := by
      rw [liveBytes, hnone]
      rfl
    -- With nothing alive the charge is a multiple of the size of a word less what was cut off
    have hmod := hl.used_mod
    have hle := hl.used_le
    rw [hzero] at hmod
    simp only [maxWord] at hmod hle ⊢
    omega

/-- `Ledger.drop` need not undo a charge: an object that takes all that can be charged is followed by an
    empty one, whose sixteen bytes are cut off.  When both have been dropped, the charge has wrapped
    below zero. -/
theorem not_undone : ¬ ∀ requests : List HeapRequest,
    let l := run none requests
    (∀ i o, l.live[i]? = some o → (l.drop i).used ≤ l.used) ∧ (l.live = [] → l.used = 0) := by
  intro hundone
  have hzero := (hundone [.allocate (maxWord - 16), .allocate 0, .drop 1, .drop 0]).2 rfl
  exact absurd hzero (by decide)

end Ledger

end StackTrace
