import Mathlib.Algebra.Ring.Nat
import StackTrace.Table

/-!
# The values of a table

The order of a table's entries carries no meaning, so its values are known up to their order.

## Key results

- `Table.perm_values_of_get?`: a bound name contributes its value and the rest of the table
- `Table.values_erase_of_get?_none`: erasing a name that is not bound does nothing
-/

namespace StackTrace.Table

variable {α : Type} {t : Table α} {a b : String} {v w : α}

/-- `List.filter` by a key that is not there. -/
private theorem filter_key_of_not_mem {entries : List (String × α)}
    (h : a ∉ entries.map Prod.fst) : entries.filter (·.1 != a) = entries := by
  refine List.filter_eq_self.mpr fun e he => ?_
  have hne : e.1 ≠ a := fun heq => h (heq ▸ List.mem_map_of_mem he)
  simp [hne]

/-- `List.find?` and `List.filter` by a key take a list apart, if its keys are distinct. -/
private theorem perm_of_find? {entries : List (String × α)}
    (hnodup : (entries.map Prod.fst).Nodup) {e : String × α}
    (h : entries.find? (·.1 == a) = some e) : entries.Perm (e :: entries.filter (·.1 != a)) := by
  -- Induction on the entries; only the one that is found has the key
  induction entries with
  | nil => simp at h
  | cons d rest ih =>
    rw [List.map_cons, List.nodup_cons] at hnodup
    by_cases hd : d.1 = a
    · -- Found, and not bound again behind
      rw [List.find?_cons, hd, beq_self_eq_true] at h
      cases h
      rw [List.filter_cons, hd, bne_self_eq_false, filter_key_of_not_mem (hd ▸ hnodup.1)]
      simp
    · have hfind : rest.find? (·.1 == a) = some e := by simpa [List.find?_cons, hd] using h
      have hkept : (d :: rest).filter (·.1 != a) = d :: rest.filter (·.1 != a) := by simp [hd]
      rw [hkept]
      exact ((ih hnodup.2 hfind).cons d).trans (List.Perm.swap e d _)

/-- `Table.get?` of a bound name contributes its value; the rest is what is left when it is erased. -/
theorem perm_values_of_get? (h : t.get? a = some v) :
    t.values.Perm (v :: (t.erase a).values) := by
  obtain ⟨e, hfind, rfl⟩ := Option.map_eq_some_iff.mp h
  exact (perm_of_find? t.nodup hfind).map Prod.snd

/-- `Table.erase` of a name that is not bound does nothing. -/
theorem values_erase_of_get?_none (h : t.get? a = none) : (t.erase a).values = t.values := by
  have hnone : ∀ e ∈ t.entries, (e.1 != a) = true := by
    intro e he
    simpa using List.find?_eq_none.mp (Option.map_eq_none_iff.mp h) e he
  simp only [values, erase, List.filter_eq_self.mpr hnone]

@[simp] theorem values_insert (t : Table α) (a : String) (v : α) :
    (t.insert a v).values = v :: (t.erase a).values := rfl

@[simp] theorem values_empty : (empty : Table α).values = [] := rfl

/-- `Table.get?` finds values only. -/
theorem mem_values_of_get? (h : t.get? a = some v) : v ∈ t.values :=
  (perm_values_of_get? h).symm.subset List.mem_cons_self

/-- `Table.erase` binds nothing. -/
theorem mem_values_of_mem_erase (h : v ∈ (t.erase a).values) : v ∈ t.values := by
  obtain ⟨e, he, rfl⟩ := List.mem_map.mp h
  exact List.mem_map_of_mem (List.mem_filter.mp he).1

/-- `Table.insert` binds the new value and nothing else. -/
theorem eq_or_mem_of_mem_insert (h : w ∈ (t.insert a v).values) : w = v ∨ w ∈ t.values := by
  rw [values_insert, List.mem_cons] at h
  exact h.imp_right mem_values_of_mem_erase

/-- `Table.values` have weights that add up to that of a name's value, if it has one, and the weights of
    the others. -/
theorem sum_values (t : Table α) (a : String) (weight : α → Nat) :
    (t.values.map weight).sum =
      ((t.get? a).map weight).getD 0 + ((t.erase a).values.map weight).sum := by
  cases hget : t.get? a with
  | none => simp [values_erase_of_get?_none hget]
  | some v => simpa using ((perm_values_of_get? hget).map weight).sum_nat

end StackTrace.Table
