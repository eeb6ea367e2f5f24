import StackTrace.Settings.Resolved
import StackTrace.Universe.Capture

/-!
# Layers of settings

A layer is valid if what it sets is in range.  Merging and resolving put together single fields of
several layers, so a chunk size or a heap limit that they come to was set by one of these layers, or
is a default; and a runtime can be started with it.

## Key results

- `Layer.validate_eq_ok_iff`: a layer passes its check exactly if it is valid
- `Layer.Valid.merge`, `Layer.Merged.valid`: layers that are merged from valid ones are valid
- `Config.inForce_runtime`: the value of each setting, from two layers and the default
- `Config.usable_runtime`: settings from valid layers are usable
-/

namespace StackTrace

/-- The value is a capacity that chunks can have. -/
def IsChunkSize (n : Nat) : Prop := 1 ≤ n ∧ n ≤ 65535

/-- `checkChunkSize` passes exactly the sizes in range. -/
theorem checkChunkSize_eq_ok_iff (n : Nat) : checkChunkSize n = .ok () ↔ IsChunkSize n := by
  unfold checkChunkSize IsChunkSize maxChunkSize
  split
  · refine ⟨fun h => ?_, fun h => ?_⟩
    · exact nomatch h
    · omega
  · refine ⟨fun _ => ?_, fun _ => rfl⟩
    omega

/-- `checkChunkSize` names the size that it refuses. -/
theorem checkChunkSize_of_not {n : Nat} (h : ¬IsChunkSize n) :
    checkChunkSize n = .error (.chunkSize n) := by
  unfold IsChunkSize at h
  unfold checkChunkSize maxChunkSize
  rw [if_pos (by omega)]

/-! ## Valid layers -/

namespace Layer

/-- The section on the heap, empty if the layer has none. -/
def heapSection (l : Layer) : HeapSection := l.heap.getD {}

/-- What a layer sets is in range: `IsChunkSize`, and a limit that is not zero. -/
structure Valid (l : Layer) : Prop where
  chunkSize : ∀ n, l.backtraceSection.chunkSize = some n → IsChunkSize n
  limitBytes : l.heapSection.limitBytes ≠ some 0

variable {l lower upper : Layer}

/-- `BacktraceSection.validate` looks at the chunk size only, if there is a section and it sets one. -/
theorem validate_backtrace_eq_ok_iff (l : Layer) :
    l.backtrace.forM BacktraceSection.validate = .ok () ↔
      ∀ n, l.backtraceSection.chunkSize = some n → IsChunkSize n := by
  obtain ⟨backtrace, heap⟩ := l
  cases backtrace with
  | none => exact ⟨fun _ => nofun, fun _ => rfl⟩
  | some s =>
    show s.validate = .ok () ↔ ∀ n, s.chunkSize = some n → IsChunkSize n
    unfold BacktraceSection.validate
    cases s.chunkSize with
    | none => exact ⟨fun _ => nofun, fun _ => rfl⟩
    | some size =>
      simp only [checkChunkSize_eq_ok_iff, Option.some.injEq, forall_eq']

/-- `HeapSection.validate` refuses a limit of zero, and nothing else. -/
theorem validate_heap_eq_ok_iff (l : Layer) :
    l.heap.forM HeapSection.validate = .ok () ↔ l.heapSection.limitBytes ≠ some 0 := by
  obtain ⟨backtrace, heap⟩ := l
  cases heap with
  | none => exact ⟨fun _ => nofun, fun _ => rfl⟩
  | some s =>
    show s.validate = .ok () ↔ s.limitBytes ≠ some 0
    unfold HeapSection.validate
    split
    · rename_i hzero
      exact ⟨nofun, fun h => absurd hzero h⟩
    · rename_i hne
      exact ⟨fun _ => hne, fun _ => rfl⟩

/-- `Layer.validate` passes a layer exactly if it is valid. -/
theorem validate_eq_ok_iff (l : Layer) : l.validate = .ok () ↔ l.Valid := by
  have hbacktrace := l.validate_backtrace_eq_ok_iff
  have hheap := l.validate_heap_eq_ok_iff
  unfold validate
  cases hchecked : l.backtrace.forM BacktraceSection.validate with
  | error v =>
    refine ⟨nofun, fun h => ?_⟩
    rw [hbacktrace.mpr h.chunkSize] at hchecked
    exact nomatch hchecked
  | ok =>
    show l.heap.forM HeapSection.validate = .ok () ↔ l.Valid
    rw [hheap]
    exact ⟨fun h => ⟨hbacktrace.mp hchecked, h⟩, fun h => h.limitBytes⟩

/-- `Layer.empty` is valid. -/
theorem valid_empty : Valid empty := ⟨nofun, nofun⟩

/-! ## Merging -/

/-- `Layer.merge` merges sections on trace capture, where a layer without one may as well have an empty
    one. -/
theorem backtraceSection_merge (lower upper : Layer) :
    (lower.merge upper).backtraceSection = lower.backtraceSection.merge upper.backtraceSection := by
  obtain ⟨upperBacktrace, upperHeap⟩ := upper
  cases upperBacktrace with
  | none => rfl
  | some s => rfl

/-- `Layer.merge` merges sections on the heap, where a layer without one may as well have an empty
    one. -/
theorem heapSection_merge (lower upper : Layer) :
    (lower.merge upper).heapSection = lower.heapSection.merge upper.heapSection := by
  obtain ⟨upperBacktrace, upperHeap⟩ := upper
  cases upperHeap with
  | none => rfl
  | some s => rfl

/-- `Layer.merge` keeps `Layer.Valid`: what is set after merging was set by one of the layers. -/
theorem Valid.merge (hlower : lower.Valid) (hupper : upper.Valid) : (lower.merge upper).Valid where
  chunkSize := by
    intro n hn
    rw [backtraceSection_merge] at hn
    rcases Option.or_eq_some_iff.mp hn with hn | ⟨-, hn⟩
    · exact hupper.chunkSize n hn
    · exact hlower.chunkSize n hn
  limitBytes := by
    intro hzero
    rw [heapSection_merge] at hzero
    rcases Option.or_eq_some_iff.mp hzero with hzero | ⟨-, hzero⟩
    · exact hupper.limitBytes hzero
    · exact hlower.limitBytes hzero

/-- The layers that come about when layers that pass `Layer.validate` are merged, in any order and any
    number of times. -/
inductive Merged : Layer → Prop
  | checked {l : Layer} (h : l.validate = .ok ()) : Merged l
  | merge {lower upper : Layer} (hlower : Merged lower) (hupper : Merged upper) :
      Merged (lower.merge upper)

/-- Layers that are `Layer.Merged` from valid ones are valid. -/
theorem Merged.valid (h : l.Merged) : l.Valid := by
  induction h with
  | checked h => exact (validate_eq_ok_iff _).mp h
  | merge _ _ ihlower ihupper => exact ihlower.merge ihupper

end Layer

/-! ## Settings in force -/

/-- `RuntimeConfig.apply` replaces the settings on trace capture by what the section sets. -/
theorem RuntimeConfig.backtrace_apply (c : RuntimeConfig) (l : Layer) :
    (c.apply l).backtrace = c.backtrace.apply l.backtraceSection := by
  obtain ⟨backtrace, heap⟩ := l
  cases backtrace with
  | none => rfl
  | some s => rfl

/-- `RuntimeConfig.apply` replaces the settings on the heap by what the section sets. -/
theorem RuntimeConfig.heap_apply (c : RuntimeConfig) (l : Layer) :
    (c.apply l).heap = c.heap.apply l.heapSection := by
  obtain ⟨backtrace, heap⟩ := l
  cases heap with
  | none => rfl
  | some s => rfl

/-- Each setting is what the first of the sections sets that sets it at all, or else the default of
    `RuntimeConfig`. -/
structure InForce (backtrace : List BacktraceSection) (heap : List HeapSection) (c : RuntimeConfig) :
    Prop where
  enabled : c.backtrace.enabled = (backtrace.findSome? (·.enabled)).getD true
  maxDepth : c.backtrace.maxDepth = (backtrace.findSome? (·.maxDepth)).getD 1024
  chunkSize : c.backtrace.chunkSize = (backtrace.findSome? (·.chunkSize)).getD 32
  showHiddenFrames : c.backtrace.showHiddenFrames =
    (backtrace.findSome? (·.showHiddenFrames)).getD false
  preallocatedErrors : c.backtrace.preallocatedErrors =
    (backtrace.findSome? (·.preallocatedErrors)).getD 4
  limitBytes : c.heap.limitBytes = heap.findSome? (·.limitBytes)

/-- `InForce` determines the settings by the sections. -/
theorem InForce.unique {backtrace : List BacktraceSection} {heap : List HeapSection}
    {c c' : RuntimeConfig} (h : InForce backtrace heap c) (h' : InForce backtrace heap c') : c = c' := by
  obtain ⟨⟨enabled, maxDepth, chunkSize, showHiddenFrames, preallocatedErrors⟩, ⟨limitBytes⟩⟩ := c
  obtain ⟨henabled, hmaxDepth, hchunkSize, hhidden, hprepared, hlimit⟩ := h
  simp only at henabled hmaxDepth hchunkSize hhidden hprepared hlimit
  rw [henabled, hmaxDepth, hchunkSize, hhidden, hprepared, hlimit, ← h'.enabled, ← h'.maxDepth,
    ← h'.chunkSize, ← h'.showHiddenFrames, ← h'.preallocatedErrors, ← h'.limitBytes]

/-- `List.findSome?` for a field, taken apart at the uppermost section. -/
private theorem findSome?_cons_eq_or {σ α : Type} (field : σ → Option α) (upper : σ) (sections : List σ) :
    (upper :: sections).findSome? field = (field upper).or (sections.findSome? field) := by
  rw [List.findSome?_cons]
  cases field upper with
  | none => rfl
  | some _ => rfl

/-- `Option.getD` in turn: a value that the lower section has replaced, and then the upper one. -/
private theorem getD_getD_eq_findSome? {σ α : Type} (field : σ → Option α) (upper lower : σ) (value : α) :
    (field upper).getD ((field lower).getD value) = ([upper, lower].findSome? field).getD value := by
  rw [findSome?_cons_eq_or, findSome?_cons_eq_or, List.findSome?_nil, Option.or_none, Option.getD_or]

/-- `List.findSome?` for a field looks at the upper of two merged sections first. -/
private theorem findSome?_merged {σ α : Type} {field : σ → Option α} {merged upper lower : σ}
    (h : field merged = (field upper).or (field lower)) (sections : List σ) :
    (merged :: sections).findSome? field = (upper :: lower :: sections).findSome? field := by
  rw [findSome?_cons_eq_or, findSome?_cons_eq_or, findSome?_cons_eq_or, h, Option.or_assoc]

/-- `InForce` of sections that were merged beforehand. -/
theorem InForce.of_merge {upper lower : BacktraceSection} {sections : List BacktraceSection}
    {heap : List HeapSection} {c : RuntimeConfig} (h : InForce (lower.merge upper :: sections) heap c) :
    InForce (upper :: lower :: sections) heap c where
  enabled := h.enabled.trans (congrArg (Option.getD · _) (findSome?_merged rfl sections))
  maxDepth := h.maxDepth.trans (congrArg (Option.getD · _) (findSome?_merged rfl sections))
  chunkSize := h.chunkSize.trans (congrArg (Option.getD · _) (findSome?_merged rfl sections))
  showHiddenFrames :=
    h.showHiddenFrames.trans (congrArg (Option.getD · _) (findSome?_merged rfl sections))
  preallocatedErrors :=
    h.preallocatedErrors.trans (congrArg (Option.getD · _) (findSome?_merged rfl sections))
  limitBytes := h.limitBytes

/-- `Config.runtime` are the settings in force, from both layers and the defaults. -/
theorem Config.inForce_runtime (c : Config) :
    InForce [c.project.backtraceSection, c.global.backtraceSection]
      [c.project.heapSection, c.global.heapSection] c.runtime := by
  have hbacktrace : c.runtime.backtrace =
      (BacktraceConfig.apply {} c.global.backtraceSection).apply c.project.backtraceSection := by
    rw [runtime, RuntimeConfig.backtrace_apply, RuntimeConfig.backtrace_apply]
  have hheap : c.runtime.heap =
      (HeapConfig.apply {} c.global.heapSection).apply c.project.heapSection := by
    rw [runtime, RuntimeConfig.heap_apply, RuntimeConfig.heap_apply]
  -- Field by field; the limit has no default behind the two layers
  refine ⟨?_, ?_, ?_, ?_, ?_, ?_⟩
  · exact (congrArg _ hbacktrace).trans (getD_getD_eq_findSome? _ _ _ _)
  · exact (congrArg _ hbacktrace).trans (getD_getD_eq_findSome? _ _ _ _)
  · exact (congrArg _ hbacktrace).trans (getD_getD_eq_findSome? _ _ _ _)
  · exact (congrArg _ hbacktrace).trans (getD_getD_eq_findSome? _ _ _ _)
  · exact (congrArg _ hbacktrace).trans (getD_getD_eq_findSome? _ _ _ _)
  · refine (congrArg _ hheap).trans ?_
    rw [findSome?_cons_eq_or, findSome?_cons_eq_or, List.findSome?_nil]
    rfl

/-! ## Starting a runtime -/

/-- `Universe.prepareErrors` ends with no error that says anything of the settings. -/
theorem Universe.prepareErrors_ne_invalidConfig (count : Nat) {u : Universe} (text : String) :
    u.prepareErrors count ≠ .error (.error (.invalidConfig text)) := by
  -- Induction on the errors to prepare; the errors of a chunk are those of the heap and of the scopes
  induction count generalizing u with
  | zero => exact nofun
  | succ count ih =>
    unfold prepareErrors
    split
    · rename_i e _ _ hallocate
      intro herror
      cases herror
      unfold allocateTrace at hallocate
      split at hallocate
      · exact nomatch hallocate
      · split at hallocate
        · rename_i hstart
          cases hallocate
          unfold Builder.start at hstart
          simp only at hstart
          split at hstart
          · exact nomatch hstart
          · rename_i failure _ _
            cases failure with
            | error _ => exact nomatch hstart
            | violation _ => exact nomatch hstart
        · exact nomatch hallocate
    · exact ih

/-- The settings are in range, and `Universe.genesis` does not report them as invalid. -/
structure Usable (c : RuntimeConfig) : Prop where
  chunkSize : 1 ≤ c.backtrace.chunkSize ∧ c.backtrace.chunkSize ≤ 65535
  limitBytes : c.heap.limitBytes ≠ some 0
  genesis : ∀ text, Universe.genesis c ≠ .error (.error (.invalidConfig text))

/-- `Usable` holds of settings with a chunk size and a limit that are in range. -/
private theorem usable_of_inRange {c : RuntimeConfig} (hsize : IsChunkSize c.backtrace.chunkSize)
    (hlimit : c.heap.limitBytes ≠ some 0) : Usable c := by
  refine ⟨hsize, hlimit, fun text => ?_⟩
  have hvalid : c.validate = .ok () := (checkChunkSize_eq_ok_iff _).mpr hsize
  unfold Universe.genesis
  simp only [hvalid]
  split
  · exact nofun
  · split
    · exact Universe.prepareErrors_ne_invalidConfig _ text
    · exact nofun

/-- `Usable` holds of settings if the sections that they come from set nothing out of range. -/
theorem InForce.usable {backtrace : List BacktraceSection} {heap : List HeapSection}
    {c : RuntimeConfig} (hforce : InForce backtrace heap c)
    (hsize : ∀ s ∈ backtrace, ∀ n, s.chunkSize = some n → IsChunkSize n)
    (hlimit : ∀ s ∈ heap, s.limitBytes ≠ some 0) : Usable c := by
  apply usable_of_inRange
  · rw [hforce.chunkSize]
    cases hset : backtrace.findSome? (·.chunkSize) with
    | none => exact ⟨by decide, by decide⟩
    | some n =>
      obtain ⟨s, hs, hn⟩ := List.exists_of_findSome?_eq_some hset
      exact hsize s hs n hn
  · rw [hforce.limitBytes]
    intro hzero
    obtain ⟨s, hs, hset⟩ := List.exists_of_findSome?_eq_some hzero
    exact hlimit s hs hset

/-- `Config.runtime` is usable if it was put together from two valid layers. -/
theorem Config.usable_runtime {c : Config} (hproject : c.project.Valid) (hglobal : c.global.Valid) :
    Usable c.runtime := by
  apply c.inForce_runtime.usable
  · simp only [List.forall_mem_cons]
    exact ⟨hproject.chunkSize, hglobal.chunkSize, nofun⟩
  · simp only [List.forall_mem_cons]
    exact ⟨hproject.limitBytes, hglobal.limitBytes, nofun⟩

end StackTrace
