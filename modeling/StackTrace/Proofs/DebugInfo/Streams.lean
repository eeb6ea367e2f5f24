import StackTrace.Proofs.DebugInfo.Unsigned5

/-!
# Streams of integers and bytecode indices

A stream is written item by item, behind whatever bytes were there, and the position after each item is
where the next one goes.  Nothing but the bytes of an item says how long it is, so a reader may start at
any of these positions.

## Key results

- `Reader.items_of_ahead`: a reader that stands before the bytes of some items reads these items
- `Reader.items_of_written`: a stream read from the position of any of its items
-/

namespace StackTrace.Unsigned5

/-- What a stream is made of. -/
inductive Item where
  | int (value : UInt32)
  | bci (index : Int)
  deriving DecidableEq

/-- The two ways in which an item can be read. -/
inductive ItemKind where
  | int
  | bci

namespace Item

/-- How the item has to be read. -/
def kind : Item → ItemKind
  | int _ => .int
  | bci _ => .bci

/-- What `Writer.item` can store: any integer, and the bytecode indices from the synchronization entry
    on that leave room for the word one higher. -/
def Encodable : Item → Prop
  | int _ => True
  | bci index => -1 ≤ index ∧ index ≤ 2 ^ 31 - 2

/-- The bytes that `Writer.item` appends. -/
def bytes : Item → List UInt8
  | int value => encode value
  | bci index => encodeBci index

end Item

namespace Writer

/-- Appends an item. -/
def item (w : Writer) : Item → Writer
  | .int value => w.int value
  | .bci index => w.bci index

/-- Appends items one after the other by `Writer.item`. -/
def items (w : Writer) (items : List Item) : Writer := items.foldl item w

/-- The `Writer.position` before the first item and after each. -/
def positions (w : Writer) : List Item → List Nat
  | [] => [w.position]
  | i :: items => w.position :: (w.item i).positions items

end Writer

namespace Reader

/-- Reads an item of the given kind. -/
def item (r : Reader) : ItemKind → Except DebugInfo.Error Item × Reader
  | .int =>
    match r.int with
    | (.ok value, r) => (.ok (.int value), r)
    | (.error e, r) => (.error e, r)
  | .bci =>
    match r.bci with
    | (.ok index, r) => (.ok (.bci index), r)
    | (.error e, r) => (.error e, r)

/-- Reads items of the given kinds one after the other by `Reader.item`; gives each with the position
    after it. -/
def items (r : Reader) : List ItemKind → List (Except DebugInfo.Error Item × Nat)
  | [] => []
  | kind :: kinds =>
    let (i, r) := r.item kind
    (i, r.position) :: r.items kinds

end Reader

/-! ## The length of an item -/

/-- `digits` gives at most one byte more than may announce another. -/
private theorem length_digits_le (spills value : Nat) : (digits spills value).length ≤ spills + 1 := by
  induction spills generalizing value with
  | zero => simp [digits]
  | succ spills ih =>
    have hrest := ih ((value - 192) / 64)
    simp only [digits]
    split
    · simp
    · rw [List.length_cons]
      omega

/-- `encode` gives at most five bytes. -/
private theorem length_encode_le (value : UInt32) : (encode value).length ≤ 5 :=
  length_digits_le 4 value.toNat

namespace Item

/-- `Item.bytes` has at least one byte. -/
private theorem length_bytes_pos (i : Item) : 0 < i.bytes.length := by
  cases i with
  | int value => exact length_encode_pos value
  | bci index => exact length_encode_pos (bciWord index)

/-- `Item.bytes` has at most five bytes. -/
private theorem length_bytes_le (i : Item) : i.bytes.length ≤ 5 := by
  cases i with
  | int value => exact length_encode_le value
  | bci index => exact length_encode_le (bciWord index)

end Item

/-! ## Writing -/

namespace Writer

variable (w : Writer)

/-- `Writer.item` appends the bytes of the item. -/
theorem toList_item (i : Item) : (w.item i).bytes.toList = w.bytes.toList ++ i.bytes := by
  cases i <;> simp [item, int, bci, Item.bytes]

/-- `Writer.item` moves on by the bytes of the item. -/
theorem position_item (i : Item) : (w.item i).position = w.position + i.bytes.length := by
  cases i <;> simp [item, Item.bytes]

@[simp] theorem items_nil : w.items [] = w := rfl

@[simp] theorem items_cons (i : Item) (is : List Item) :
    w.items (i :: is) = (w.item i).items is := rfl

/-- `Writer.items` may be called for the items in two parts. -/
private theorem items_append (is js : List Item) : w.items (is ++ js) = (w.items is).items js :=
  List.foldl_append

/-- `Writer.items` puts the bytes of the items behind those that were there. -/
theorem toList_items (is : List Item) :
    (w.items is).bytes.toList = w.bytes.toList ++ is.flatMap Item.bytes := by
  induction is generalizing w with
  | nil => simp
  | cons i is ih => rw [items_cons, ih, toList_item, List.flatMap_cons, List.append_assoc]

/-- The positions from the item at place `k` on are those of a writer that has come there. -/
private theorem drop_positions {k : Nat} {is : List Item} (hk : k ≤ is.length) :
    (w.positions is).drop k = (w.items (is.take k)).positions (is.drop k) := by
  induction k generalizing w is with
  | zero => simp
  | succ k ih =>
    cases is with
    | nil => exact absurd hk (Nat.not_succ_le_zero k)
    | cons i is =>
      rw [positions, List.drop_succ_cons, ih (w.item i) (Nat.le_of_succ_le_succ hk)]
      rfl

/-- The first of `Writer.positions` is where the writer stands. -/
theorem positions_eq_cons (is : List Item) :
    w.positions is = w.position :: (w.positions is).tail := by
  cases is <;> rfl

/-- The last of `Writer.positions` is the end of what is written. -/
private theorem getLast?_positions (is : List Item) :
    (w.positions is).getLast? = some (w.items is).bytes.size := by
  induction is generalizing w with
  | nil => rfl
  | cons i is ih =>
    rw [positions, positions_eq_cons, List.getLast?_cons_cons, ← positions_eq_cons, ih]
    rfl

/-- From each of `Writer.positions` to the next it is one byte to five. -/
private theorem isChain_positions (is : List Item) :
    (w.positions is).IsChain fun before after => before + 1 ≤ after ∧ after ≤ before + 5 := by
  induction is generalizing w with
  | nil => exact .singleton _
  | cons i is ih =>
    have hrest := ih (w.item i)
    have hpos := i.length_bytes_pos
    have hle := i.length_bytes_le
    rw [positions_eq_cons] at hrest
    rw [positions, positions_eq_cons]
    refine hrest.cons_cons ?_
    rw [position_item]
    omega

end Writer

/-! ## Reading -/

namespace Reader

/-- `Reader.item` reads an item back, whatever follows. -/
theorem item_of_ahead {i : Item} (hi : i.Encodable) {r : Reader} {rest : List UInt8}
    (h : r.ahead = i.bytes ++ rest) : r.item i.kind = (.ok i, r.move i.bytes.length) := by
  cases i with
  | int value =>
    simp only [item, Item.kind, int_encode h]
    rfl
  | bci index =>
    obtain ⟨hlow, hhigh⟩ := hi
    simp only [item, Item.kind, bci_encodeBci hlow hhigh h]
    rfl

/-- A reader that stands before the bytes of some items, where the writer stood, reads these items by
    `Reader.items` and comes to the positions that the writer recorded. -/
theorem items_of_ahead {is : List Item} (his : ∀ i ∈ is, i.Encodable) {r : Reader} {w : Writer}
    (hposition : r.position = w.position) (h : r.ahead = is.flatMap Item.bytes) :
    r.items (is.map Item.kind) = (is.map .ok).zip (w.positions is).tail := by
  induction is generalizing r w with
  | nil => rfl
  | cons i is ih =>
    obtain ⟨hi, hrest⟩ := List.forall_mem_cons.mp his
    rw [List.flatMap_cons] at h
    have hmoved : (r.move i.bytes.length).position = (w.item i).position := by
      rw [w.position_item, ← hposition]
      rfl
    have hread := ih hrest hmoved (ahead_move h)
    simp only [List.map_cons, items, item_of_ahead hi h, hread]
    rw [Writer.positions, List.tail_cons, (w.item i).positions_eq_cons, List.zip_cons_cons, hmoved]
    rfl

/-- Behind any bytes, `Writer.items` writes any items that can be stored, and the position before the
    first one and after each is recorded.  `Reader.items`, started at the position of any item with the
    kinds of the items from there on, reads exactly these to the end, and comes to the recorded position
    after each.  The last position is the end of the bytes, and each item takes one byte to five. -/
theorem items_of_written (w : Writer) {is : List Item} (his : ∀ i ∈ is, i.Encodable) {k : Nat}
    (hk : k ≤ is.length) :
    let positions := w.positions is
    (∃ start, positions[k]? = some start ∧
      Reader.items ⟨(w.items is).bytes, start⟩ ((is.drop k).map Item.kind) =
        ((is.drop k).map .ok).zip (positions.drop (k + 1))) ∧
    positions.getLast? = some (w.items is).bytes.size ∧
    positions.IsChain fun before after => before + 1 ≤ after ∧ after ≤ before + 5 := by
  intro positions
  -- The writer that has come to place `k` stands where the reader starts
  let there := w.items (is.take k)
  have hdrop : positions.drop k = there.positions (is.drop k) := w.drop_positions hk
  have hstart : positions[k]? = some there.position := by
    have hhead := congrArg List.head? hdrop
    rw [List.head?_drop, there.positions_eq_cons] at hhead
    exact hhead
  have hbytes : (w.items is).bytes.toList =
      there.bytes.toList ++ (is.drop k).flatMap Item.bytes := by
    rw [← there.toList_items, ← w.items_append, List.take_append_drop]
  have hahead : ahead ⟨(w.items is).bytes, there.position⟩ = (is.drop k).flatMap Item.bytes := by
    rw [ahead, hbytes]
    exact List.drop_left
  have hrest : ∀ i ∈ is.drop k, i.Encodable := fun i hi => his i (List.mem_of_mem_drop hi)
  -- What lies ahead of the reader is the bytes of the items that are left
  refine ⟨⟨there.position, hstart, ?_⟩, w.getLast?_positions is, w.isChain_positions is⟩
  rw [items_of_ahead hrest rfl hahead, ← hdrop, List.tail_drop]

/-- `items_of_written` behind a byte that announces another: the second of four items is found where it
    was recorded, and the last two take five bytes each. -/
theorem items_of_written_behind :
    let w : Writer := ⟨#[192]⟩
    let is : List Item := [.int 191, .bci (-1), .int 4294967295, .bci 2147483646]
    (∀ i ∈ is, i.Encodable) ∧ 1 ≤ is.length ∧
      Reader.items ⟨(w.items is).bytes, 2⟩ [.bci, .int, .bci] =
        [(.ok (.bci (-1)), 3), (.ok (.int 4294967295), 8), (.ok (.bci 2147483646), 13)] := by
  intro w is
  have his : ∀ i ∈ is, i.Encodable := by
    simp only [is, Item.Encodable, List.forall_mem_cons, List.not_mem_nil]
    simp
  have hk : 1 ≤ is.length := by decide
  have hpositions : w.positions is = [1, 2, 3, 8, 13] := by decide +kernel
  obtain ⟨⟨start, hstart, hread⟩, -⟩ := items_of_written w his hk
  rw [hpositions] at hstart hread
  cases hstart
  exact ⟨his, hk, hread⟩

end Reader

end StackTrace.Unsigned5
