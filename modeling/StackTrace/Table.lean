/-!
# Tables by name

A `Table` binds names to values, each name at most once.  The order of its entries carries no
meaning: `get?` is its view, and two lemmas say what an insertion and a removal do to it,

* `get?_insert`  `(t.insert a v).get? b = if b = a then some v else t.get? b`
* `get?_erase`   `(t.erase a).get? b = if b = a then none else t.get? b`
-/

namespace StackTrace

/-- A finite map from names. -/
structure Table (α : Type) where
  entries : List (String × α)
  nodup : (entries.map Prod.fst).Nodup

namespace Table

variable {α : Type}

/-- The table that binds no name. -/
def empty : Table α := ⟨[], by simp⟩

/-- What a name is bound to. -/
def get? (t : Table α) (name : String) : Option α :=
  (t.entries.find? (·.1 == name)).map Prod.snd

/-- Whether `get?` finds a name bound. -/
def contains (t : Table α) (name : String) : Bool := (t.get? name).isSome

/-- Forgets a name. -/
def erase (t : Table α) (name : String) : Table α :=
  ⟨t.entries.filter (·.1 != name), (List.filter_sublist.map Prod.fst).nodup t.nodup⟩

/-- Binds a name, in place of any earlier binding. -/
def insert (t : Table α) (name : String) (value : α) : Table α :=
  ⟨(name, value) :: t.entries.filter (·.1 != name), by
    refine List.nodup_cons.mpr ⟨?_, (List.filter_sublist.map Prod.fst).nodup t.nodup⟩
    simp [List.mem_filter]⟩

/-- The number of bound names. -/
def size (t : Table α) : Nat := t.entries.length

/-- All values, one for each bound name. -/
def values (t : Table α) : List α := t.entries.map Prod.snd

@[simp] theorem get?_empty (name : String) : (empty : Table α).get? name = none := rfl

private theorem find?_filter_ne (entries : List (String × α)) (a b : String) :
    (entries.filter (·.1 != a)).find? (·.1 == b) =
      if b = a then none else entries.find? (·.1 == b) := by
  induction entries with
  | nil => simp
  | cons e rest ih => by_cases h : e.1 = a <;> by_cases hb : e.1 = b <;> grind

/-- `Table.get?` after `Table.erase`. -/
@[simp] theorem get?_erase (t : Table α) (a b : String) :
    (t.erase a).get? b = if b = a then none else t.get? b := by
  simp only [get?, erase, find?_filter_ne]
  split <;> simp

/-- `Table.get?` after `Table.insert`. -/
@[simp] theorem get?_insert (t : Table α) (a b : String) (v : α) :
    (t.insert a v).get? b = if b = a then some v else t.get? b := by
  simp only [get?, insert, List.find?_cons, find?_filter_ne]
  by_cases h : b = a
  · simp [h]
  · have h' : (a == b) = false := by simpa using Ne.symm h
    simp [h, h']

end Table

end StackTrace
