import StackTrace.Proofs.Settings.Layers

/-!
# Merging layers and applying them

Layers can be put together in two ways: merged into one layer, which is then applied to settings, or
applied to the settings one after the other.  Merging goes field by field through sections that may be
missing, and so does applying; both come to the same.

## Key results

- `MergeLaws`: merging is associative, has an empty layer, and repeats nothing
- `MergeLaws.optional`: sections may be missing
- `RuntimeConfig.apply_merge`: one merged layer, or two layers in order
- `Layer.merged_as_applied`: any number of layers
-/

namespace StackTrace

/-- What merging obeys: it is associative, `blank` sets nothing, and to merge something with itself
    changes nothing. -/
structure MergeLaws {σ : Type} (merge : σ → σ → σ) (blank : σ) : Prop where
  assoc : ∀ a b c, merge (merge a b) c = merge a (merge b c)
  blank_merge : ∀ a, merge blank a = a
  merge_blank : ∀ a, merge a blank = a
  merge_self : ∀ a, merge a a = a

/-- Lays a section over another where either may be missing, by `merge`.  Nothing is laid over a `blank`
    one. -/
def mergeSection {σ : Type} (merge : σ → σ → σ) (blank : σ) (lower : Option σ) : Option σ → Option σ
  | none => lower
  | some s => some (merge (lower.getD blank) s)

/-- `mergeSection` obeys the laws if the merge of sections that are there does. -/
theorem MergeLaws.optional {σ : Type} {merge : σ → σ → σ} {blank : σ} (h : MergeLaws merge blank) :
    MergeLaws (mergeSection merge blank) none where
  assoc := by
    intro a b c
    cases c with
    | none => rfl
    | some c =>
      cases b with
      | none => exact congrArg (fun s => some (merge (a.getD blank) s)) (h.blank_merge c).symm
      | some b => exact congrArg some (h.assoc (a.getD blank) b c)
  blank_merge := by
    intro a
    cases a with
    | none => rfl
    | some a => exact congrArg some (h.blank_merge a)
  merge_blank := fun _ => rfl
  merge_self := by
    intro a
    cases a with
    | none => rfl
    | some a => exact congrArg some (h.merge_self a)

/-! ## Sections -/

/-- `BacktraceSection.merge` obeys the laws, field by field. -/
private theorem BacktraceSection.mergeLaws : MergeLaws merge {} where
  assoc := fun a b c => by simp only [merge, Option.or_assoc]
  blank_merge := fun a => by simp only [merge, Option.or_none]
  merge_blank := fun a => by simp only [merge, Option.none_or]
  merge_self := fun a => by simp only [merge, Option.or_self]

/-- `HeapSection.merge` obeys the laws. -/
private theorem HeapSection.mergeLaws : MergeLaws merge {} where
  assoc := fun a b c => by simp only [merge, Option.or_assoc]
  blank_merge := fun a => by simp only [merge, Option.or_none]
  merge_blank := fun a => by simp only [merge, Option.none_or]
  merge_self := fun a => by simp only [merge, Option.or_self]

/-- `BacktraceConfig.apply` replaces by the merged section at once what the lower section replaces and
    then the upper one. -/
theorem BacktraceConfig.apply_merge (c : BacktraceConfig) (lower upper : BacktraceSection) :
    c.apply (lower.merge upper) = (c.apply lower).apply upper := by
  simp only [apply, BacktraceSection.merge, Option.getD_or]

/-- `HeapConfig.apply` replaces by the merged section at once what the two replace in turn. -/
theorem HeapConfig.apply_merge (c : HeapConfig) (lower upper : HeapSection) :
    c.apply (lower.merge upper) = (c.apply lower).apply upper := by
  simp only [apply, HeapSection.merge, Option.or_assoc]

/-! ## Layers -/

namespace Layer

/-- `Layer.merge` merges the sections, which may be missing. -/
private theorem merge_eq (lower upper : Layer) : lower.merge upper =
    ⟨mergeSection BacktraceSection.merge {} lower.backtrace upper.backtrace,
      mergeSection HeapSection.merge {} lower.heap upper.heap⟩ := by
  obtain ⟨backtrace, heap⟩ := upper
  cases backtrace <;> cases heap <;> rfl

/-- `Layer.merge` obeys the laws, as its sections do. -/
private theorem mergeLaws : MergeLaws merge empty where
  assoc := by
    intro a b c
    simp only [merge_eq, BacktraceSection.mergeLaws.optional.assoc,
      HeapSection.mergeLaws.optional.assoc]
  blank_merge := by
    intro a
    simp only [merge_eq, empty, BacktraceSection.mergeLaws.optional.blank_merge,
      HeapSection.mergeLaws.optional.blank_merge]
  merge_blank := fun _ => rfl
  merge_self := by
    intro a
    simp only [merge_eq, BacktraceSection.mergeLaws.optional.merge_self,
      HeapSection.mergeLaws.optional.merge_self]

end Layer

namespace RuntimeConfig

/-- `RuntimeConfig.apply` of a layer merged from two replaces what the two replace in order. -/
theorem apply_merge (c : RuntimeConfig) (lower upper : Layer) :
    c.apply (lower.merge upper) = (c.apply lower).apply upper := by
  have hbacktrace : (c.apply (lower.merge upper)).backtrace =
      ((c.apply lower).apply upper).backtrace := by
    rw [backtrace_apply, backtrace_apply, backtrace_apply, Layer.backtraceSection_merge,
      BacktraceConfig.apply_merge]
  have hheap : (c.apply (lower.merge upper)).heap = ((c.apply lower).apply upper).heap := by
    rw [heap_apply, heap_apply, heap_apply, Layer.heapSection_merge, HeapConfig.apply_merge]
  calc c.apply (lower.merge upper)
      = ⟨(c.apply (lower.merge upper)).backtrace, (c.apply (lower.merge upper)).heap⟩ := rfl
    _ = (c.apply lower).apply upper := by rw [hbacktrace, hheap]

/-- `RuntimeConfig.apply` of the layer that sets nothing. -/
private theorem apply_empty (c : RuntimeConfig) : c.apply Layer.empty = c := rfl

/-- `RuntimeConfig.apply` of layers merged into one replaces what they replace in order. -/
private theorem apply_foldl_merge (c : RuntimeConfig) (layers : List Layer) :
    c.apply (layers.foldl Layer.merge Layer.empty) = layers.foldl apply c := by
  have hfold : layers.foldl apply (c.apply Layer.empty) =
      c.apply (layers.foldl Layer.merge Layer.empty) :=
    List.foldl_hom c.apply fun lower upper => (c.apply_merge lower upper).symm
  rw [← hfold, apply_empty]

end RuntimeConfig

/-- `Layer.merge` comes to the same as applying layers in order.  Merging is associative, the layer that
    sets nothing changes nothing on either side, nor does a layer merged with itself, and layers that
    pass their check are merged into one that does.  Any number of layers can be merged first and then
    applied once by `RuntimeConfig.apply`, in place of being applied one after the other; so
    `Config.runtime` are the defaults under the project layer merged over the global one. -/
theorem Layer.merged_as_applied (a b c : Layer) (r : RuntimeConfig) (layers : List Layer)
    (config : Config) :
    (a.merge b).merge c = a.merge (b.merge c) ∧
    empty.merge a = a ∧ a.merge empty = a ∧ a.merge a = a ∧
    (a.validate = .ok () → b.validate = .ok () → (a.merge b).validate = .ok ()) ∧
    r.apply (layers.foldl merge empty) = layers.foldl RuntimeConfig.apply r ∧
    config.runtime = RuntimeConfig.apply {} (config.global.merge config.project) := by
  refine ⟨mergeLaws.assoc a b c, mergeLaws.blank_merge a, mergeLaws.merge_blank a,
    mergeLaws.merge_self a, fun ha hb => ?_, r.apply_foldl_merge layers, ?_⟩
  · rw [validate_eq_ok_iff] at ha hb ⊢
    exact ha.merge hb
  · exact (RuntimeConfig.apply_merge {} config.global config.project).symm

/-- `Layer.merged_as_applied` for the largest chunks, under the smallest and a heap limit, under no
    limit on the depth. -/
theorem Layer.merged_as_applied_layered :
    let large : Layer := { backtrace := some { chunkSize := some 65535, enabled := some false } }
    let small : Layer :=
      { backtrace := some { chunkSize := some 1 }, heap := some { limitBytes := some 1 } }
    let deep : Layer := { backtrace := some { maxDepth := some 0 }, heap := some {} }
    large.validate = .ok () ∧ small.validate = .ok () ∧ (large.merge small).validate = .ok () ∧
    RuntimeConfig.apply {} ([large, small, deep].foldl merge empty) =
      ⟨{ enabled := false, maxDepth := 0, chunkSize := 1 }, ⟨some 1⟩⟩ := by
  intro large small deep
  have hlarge : large.validate = .ok () := rfl
  have hsmall : small.validate = .ok () := rfl
  obtain ⟨-, -, -, -, hvalid, hfold, -⟩ :=
    merged_as_applied large small deep {} [large, small, deep] ⟨deep, large, none⟩
  exact ⟨hlarge, hsmall, hvalid hlarge hsmall, hfold⟩

end StackTrace
