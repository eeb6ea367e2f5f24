import StackTrace.DebugInfo.Code

/-!
# The table of descriptors

Finished code keeps its descriptors sorted by code offset, one for each, and looks one up by halving
the table.  Sorting is stable and of equal offsets the first is kept, so a look-up gives what a search
through the descriptors in the order of recording gives.

## Key results

- `PcDesc.search_eq_find?`: halving a sorted table finds what looking at each entry finds
- `CodeBuilder.pcDescAt_build`: a look-up gives the first descriptor recorded for the offset
-/

namespace StackTrace

/-! ### Halving -/

namespace PcDesc

/-- In a sorted table around a middle entry, `List.find?` finds an offset that is not that of the middle
    on its own side. -/
private theorem find?_around {ds below above : List PcDesc} {middle : PcDesc}
    (hds : ds = below ++ middle :: above) (hsorted : ds.Pairwise (·.pc < ·.pc)) (pc : Nat) :
    ds.find? (·.pc == pc) =
      if middle.pc = pc then some middle
      else if pc < middle.pc then below.find? (·.pc == pc) else above.find? (·.pc == pc) := by
  subst hds
  obtain ⟨-, hmiddle, hbelow⟩ := List.pairwise_append.mp hsorted
  have habove := (List.pairwise_cons.mp hmiddle).1
  -- An offset is not found among entries that all lie on one side of it
  have hnone : ∀ ds : List PcDesc, (∀ d ∈ ds, d.pc ≠ pc) → ds.find? (·.pc == pc) = none := by
    intro ds hds
    simpa using hds
  rw [List.find?_append, List.find?_cons]
  -- Case split as in `search`: the middle itself, or what is on the one side of it or on the other
  by_cases heq : middle.pc = pc
  · have hleft := hnone below fun d hd => by
      have := hbelow d hd middle List.mem_cons_self
      omega
    simp [hleft, heq]
  · have hother : (middle.pc == pc) = false := beq_false_of_ne heq
    by_cases hlt : pc < middle.pc
    · have hright := hnone above fun d hd => by
        have := habove d hd
        omega
      simp [hright, hother, heq, hlt]
    · have hleft := hnone below fun d hd => by
        have := hbelow d hd middle List.mem_cons_self
        omega
      simp [hleft, hother, heq, hlt]

/-- `search`, which halves a sorted table, finds what `List.find?` finds. -/
theorem search_eq_find? {ds : List PcDesc} (hsorted : ds.Pairwise (·.pc < ·.pc)) (pc : Nat) :
    search pc ds = ds.find? (·.pc == pc) := by
  have hsplit {ds : List PcDesc} {middle above} (hdrop : ds.drop (ds.length / 2) = middle :: above) :
      ds = ds.take (ds.length / 2) ++ middle :: above := by
    rw [← hdrop, List.take_append_drop]
  -- Induction along the halving; only the half that is searched matters
  fun_induction search pc ds with
  | case1 ds hdrop =>
    -- No entry at half of the length means no entry at all
    have hlength := congrArg List.length hdrop
    rw [List.length_drop, List.length_nil] at hlength
    have hnil : ds = [] := List.eq_nil_of_length_eq_zero (by omega)
    rw [hnil, List.find?_nil]
  | case2 ds middle above hdrop heq =>
    rw [find?_around (hsplit hdrop) hsorted, if_pos heq]
  | case3 ds middle above hdrop hne hlt ih =>
    have hbelow := hsorted.sublist (List.take_sublist (ds.length / 2) ds)
    rw [find?_around (hsplit hdrop) hsorted, if_neg hne, if_pos hlt, ih hbelow]
  | case4 ds middle above hdrop hne hge ih =>
    have hright := hsorted.sublist (List.drop_sublist (ds.length / 2) ds)
    rw [hdrop] at hright
    rw [find?_around (hsplit hdrop) hsorted, if_neg hne, if_neg hge,
      ih (List.pairwise_cons.mp hright).2]

end PcDesc

/-! ### Sorting -/

namespace CodeBuilder

/-- The order that `List.mergeSort` is given is transitive. -/
private theorem pc_le_trans (d e f : PcDesc) (h : decide (d.pc ≤ e.pc) = true)
    (h' : decide (e.pc ≤ f.pc) = true) : decide (d.pc ≤ f.pc) = true := by
  simp only [decide_eq_true_eq] at h h' ⊢
  omega

/-- The order that `List.mergeSort` is given is total. -/
private theorem pc_le_total (d e : PcDesc) : (decide (d.pc ≤ e.pc) || decide (e.pc ≤ d.pc)) = true := by
  simp only [Bool.or_eq_true, decide_eq_true_eq]
  omega

/-- `List.mergeSort` is stable, so it leaves descriptors of one offset in their order. -/
private theorem find?_mergeSort (ds : List PcDesc) (pc : Nat) :
    (ds.mergeSort fun d e => d.pc ≤ e.pc).find? (·.pc == pc) = ds.find? (·.pc == pc) := by
  let same (d : PcDesc) : Bool := d.pc == pc
  -- The descriptors of the offset are a sorted part of the table, which stability keeps as it is
  have hsame : ((ds.filter same)).Pairwise fun d e => decide (d.pc ≤ e.pc) = true := by
    apply List.pairwise_of_forall_mem_list
    intro d hd e he
    have hd' := eq_of_beq (List.mem_filter.mp hd).2
    have he' := eq_of_beq (List.mem_filter.mp he).2
    simp only [decide_eq_true_eq]
    omega
  have hkept : (ds.filter same).Sublist (ds.mergeSort fun d e => d.pc ≤ e.pc) :=
    List.sublist_mergeSort pc_le_trans pc_le_total hsame List.filter_sublist
  -- As a sorted part of the same length it is all that there is of the offset
  have hfilter : (ds.mergeSort fun d e => d.pc ≤ e.pc).filter same = ds.filter same := by
    have hsub := hkept.filter same
    rw [List.filter_filter] at hsub
    simp only [Bool.and_self] at hsub
    exact (hsub.eq_of_length ((List.mergeSort_perm ds _).filter same).length_eq.symm).symm
  rw [← List.head?_filter, ← List.head?_filter, hfilter]

/-- Of equal offsets, `dropRepeated` keeps the first. -/
private theorem find?_dropRepeated (ds : List PcDesc) (pc : Nat) :
    (dropRepeated ds).find? (·.pc == pc) = ds.find? (·.pc == pc) := by
  fun_induction dropRepeated ds with
  | case1 => rfl
  | case2 => rfl
  | case3 d e rest heq ih =>
    rw [ih]
    simp only [List.find?_cons, heq]
    split <;> rfl
  | case4 d e rest hne ih => rw [List.find?_cons, List.find?_cons, ih]

/-- What `dropRepeated` keeps of descriptors was there before. -/
private theorem dropRepeated_sublist (ds : List PcDesc) : (dropRepeated ds).Sublist ds := by
  fun_induction dropRepeated ds with
  | case1 => exact List.Sublist.refl _
  | case2 => exact List.Sublist.refl _
  | case3 d e rest heq ih => exact ih.trans ((List.sublist_cons_self e rest).cons_cons d)
  | case4 d e rest hne ih => exact ih.cons_cons d

/-- What `dropRepeated` keeps of sorted descriptors has increasing offsets. -/
private theorem dropRepeated_increasing {ds : List PcDesc} (hsorted : ds.Pairwise (·.pc ≤ ·.pc)) :
    (dropRepeated ds).Pairwise (·.pc < ·.pc) := by
  fun_induction dropRepeated ds with
  | case1 => exact .nil
  | case2 => exact List.pairwise_singleton ..
  | case3 d e rest heq ih =>
    exact ih (hsorted.sublist ((List.sublist_cons_self e rest).cons_cons d))
  | case4 d e rest hne ih =>
    obtain ⟨hhead, htail⟩ := List.pairwise_cons.mp hsorted
    apply List.pairwise_cons.mpr ⟨?_, ih htail⟩
    -- The next one kept is no smaller than the next one there was, which differs
    intro f hf
    have hle : d.pc ≤ e.pc := hhead e List.mem_cons_self
    rcases List.mem_cons.mp ((dropRepeated_sublist _).subset hf) with rfl | hrest
    · omega
    · have := (List.pairwise_cons.mp htail).1 f hrest
      omega

/-- `CompiledCode.pcDescAt` gives the first descriptor recorded for the offset. -/
theorem pcDescAt_build (b : CodeBuilder) (pc : Nat) :
    b.build.pcDescAt pc = b.pcDescs.reverse.find? (·.pc == pc) := by
  have hsorted : (b.pcDescs.reverse.mergeSort fun d e => d.pc ≤ e.pc).Pairwise (·.pc ≤ ·.pc) := by
    have hpairwise := List.pairwise_mergeSort pc_le_trans pc_le_total b.pcDescs.reverse
    simpa using hpairwise
  unfold CompiledCode.pcDescAt build
  rw [PcDesc.search_eq_find? (dropRepeated_increasing hsorted), find?_dropRepeated, find?_mergeSort]

end CodeBuilder

end StackTrace
