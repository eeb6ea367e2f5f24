import StackTrace.Proofs.DebugInfo.Streams

/-!
# Streams that are cut off

A reader that comes to the end of the bytes inside an item says so and stays there.  The bytes of an
integer, cut anywhere, all announce another one, so a part of an item is never taken for an item.

## Key results

- `Reader.intFrom_of_cut`: reading ends where the bytes of an integer are cut off
- `Reader.items_of_ended`: at the end of the bytes nothing is read any more
- `Reader.items_of_cut`: what is read of a stream that is cut off
-/

namespace StackTrace.Unsigned5

namespace Reader

variable {r : Reader}

/-- Where reading stops if the bytes end too early, whatever was to be read. -/
def stop (r : Reader) : Nat := r.position + r.ahead.length

/-- What `Reader` says when the bytes end too early. -/
def cutOff (r : Reader) {α : Type} : Except DebugInfo.Error α × Reader :=
  (.error (.truncated r.stop), r.move r.ahead.length)

/-! ## Reading to the end of the bytes -/

/-- At the end of the bytes `Reader.byte` is `Reader.cutOff`. -/
private theorem byte_of_ended (h : r.ahead = []) : r.byte = r.cutOff := by
  have hend : r.bytes[r.position]? = none := by
    rw [← Array.getElem?_toList, List.getElem?_eq_none_iff]
    exact List.drop_eq_nil_iff.mp h
  simp only [byte, hend, cutOff, stop, h]
  rfl

/-- Past a byte, `Reader.cutOff` still names the same place. -/
private theorem cutOff_move {α : Type} {b : UInt8} {rest : List UInt8} (h : r.ahead = b :: rest) :
    (r.move 1).cutOff (α := α) = r.cutOff := by
  have hrest : (r.move 1).ahead = rest := @ahead_move r [b] rest h
  simp only [cutOff, stop, hrest, h, move_move, List.length_cons]
  simp [move, Nat.add_assoc, Nat.add_comm 1]

/-- Before a part of the bytes of an integer, `Reader.intFrom` comes to the end of them. -/
theorem intFrom_of_cut {spills value : Nat} {k : Nat} (hk : k < (digits spills value).length)
    (shift sum : UInt32) (h : r.ahead = (digits spills value).take k) :
    r.intFrom spills shift sum = r.cutOff := by
  -- Induction on the number of bytes that may announce another; the cut moves forward along with it
  induction spills generalizing value k shift sum r with
  | zero =>
    have hnone : r.ahead = [] := by
      simp only [digits, List.length_singleton, Nat.lt_one_iff] at hk
      rw [h, hk, List.take_zero]
    unfold intFrom
    simp only [byte_of_ended hnone]
    rfl
  | succ spills ih =>
    cases k with
    | zero =>
      rw [List.take_zero] at h
      unfold intFrom
      simp only [byte_of_ended h]
      rfl
    | succ k =>
      simp only [digits] at hk h
      split at h
      · -- One byte, of which no part is left when it is cut
        rename_i hsmall
        rw [if_pos hsmall, List.length_singleton] at hk
        omega
      · rename_i hlarge
        rw [if_neg hlarge, List.length_cons] at hk
        rw [List.take_succ_cons] at h
        -- The byte in front of the cut announces another one, which is sought behind it
        have hmore : ¬(192 + (value - 192) % 64).toUInt8 < 192 := by
          rw [UInt8.lt_iff_toNat_lt, UInt8.toNat_ofNat']
          simp
          omega
        have hrest : (r.move 1).ahead = _ := @ahead_move r [_] _ h
        unfold intFrom
        simp only [byte_of_ahead h, if_neg hmore]
        rw [ih (Nat.lt_of_succ_lt_succ hk) _ _ hrest, cutOff_move h]

/-- Before a part of the bytes of an integer, `Reader.int` is `Reader.cutOff`. -/
private theorem int_of_cut {value : UInt32} {k : Nat} (hk : k < (encode value).length)
    (h : r.ahead = (encode value).take k) : r.int = r.cutOff :=
  intFrom_of_cut hk 0 0 h

/-- `Reader.bci` stops where `Reader.int` does. -/
private theorem bci_of_int_cutOff (h : r.int = r.cutOff) : r.bci = r.cutOff := by
  simp only [bci, h]
  rfl

/-- Whatever kind of item `Reader.item` is asked for, it is read as an integer. -/
private theorem item_of_int_cutOff (h : r.int = r.cutOff) (kind : ItemKind) : r.item kind = r.cutOff := by
  cases kind with
  | int =>
    simp only [item, h]
    rfl
  | bci =>
    simp only [item, bci_of_int_cutOff h]
    rfl

/-- A part of an item is not an item for `Reader.item`, in whatever way it is read. -/
private theorem item_of_cut {i : Item} {k : Nat} (hk : k < i.bytes.length) (h : r.ahead = i.bytes.take k)
    (kind : ItemKind) : r.item kind = r.cutOff := by
  refine item_of_int_cutOff ?_ kind
  cases i with
  | int value => exact int_of_cut hk h
  | bci index => exact int_of_cut hk h

/-- At the end of the bytes `Reader.items` reads nothing any more. -/
theorem items_of_ended (h : r.ahead = []) (kinds : List ItemKind) :
    r.items kinds = kinds.map fun _ => (.error (.truncated r.position), r.position) := by
  have hint : r.int = r.cutOff := @int_of_cut r 0 0 (length_encode_pos 0) h
  have hstay : r.move 0 = r := rfl
  induction kinds with
  | nil => rfl
  | cons kind kinds ih =>
    simp only [items, item_of_int_cutOff hint kind, cutOff, stop, h, List.length_nil, hstay, ih,
      Nat.add_zero, List.map_cons]

/-- Before a part of an item, `Reader.items` reads nothing any more, either. -/
private theorem items_of_cut_item {i : Item} {k : Nat} (hk : k < i.bytes.length)
    (h : r.ahead = i.bytes.take k) (kinds : List ItemKind) :
    r.items kinds = kinds.map fun _ => (.error (.truncated r.stop), r.stop) := by
  cases kinds with
  | nil => rfl
  | cons kind kinds =>
    have hended : (r.move r.ahead.length).ahead = [] := ahead_move (List.append_nil _).symm
    simp only [items, item_of_cut hk h kind, cutOff, items_of_ended hended, List.map_cons]
    rfl

end Reader

/-! ## Streams -/

namespace Writer

variable {w : Writer} {c : Nat} {i : Item} {is : List Item}

/-- The items that end within the first `c` bytes, each with the position behind it. -/
def within (w : Writer) (c : Nat) (is : List Item) : List (Item × Nat) :=
  (is.zip (w.positions is).tail).filter fun (_, stop) => stop ≤ c

/-- None of `Writer.positions` is in front of where the writer stands. -/
private theorem position_le_of_mem_positions {p : Nat} (hp : p ∈ w.positions is) : w.position ≤ p := by
  induction is generalizing w with
  | nil => exact Nat.le_of_eq (List.mem_singleton.mp hp).symm
  | cons i is ih =>
    rcases List.mem_cons.mp hp with rfl | hp
    · exact Nat.le_refl _
    · have hle := ih hp
      rw [position_item] at hle
      omega

/-- `Writer.positions` pairs the first item with the position behind it. -/
private theorem zip_positions_cons : (i :: is).zip (w.positions (i :: is)).tail =
    (i, (w.item i).position) :: is.zip ((w.item i).positions is).tail := by
  rw [positions, List.tail_cons, positions_eq_cons, List.zip_cons_cons]
  rfl

/-- A first item that ends within the first bytes is in `Writer.within`. -/
private theorem within_cons_of_le (h : (w.item i).position ≤ c) :
    w.within c (i :: is) = (i, (w.item i).position) :: (w.item i).within c is := by
  rw [within, zip_positions_cons, List.filter_cons_of_pos (by simpa using h)]
  rfl

/-- Behind a first item that does not end within the first bytes there is none in `Writer.within`. -/
private theorem within_cons_of_lt (h : c < (w.item i).position) : w.within c (i :: is) = [] := by
  rw [within, List.filter_eq_nil_iff]
  rintro ⟨j, stop⟩ hmem
  have hstop : stop ∈ (w.positions (i :: is)).tail := (List.of_mem_zip hmem).2
  rw [positions, List.tail_cons] at hstop
  have hle := position_le_of_mem_positions hstop
  simp only [decide_eq_true_eq]
  omega

/-- The items of `Writer.within` are the first items. -/
private theorem within_prefix (w : Writer) (c : Nat) (is : List Item) :
    (w.within c is).map Prod.fst <+: is := by
  induction is generalizing w with
  | nil => exact List.prefix_refl []
  | cons i is ih =>
    by_cases h : (w.item i).position ≤ c
    · rw [within_cons_of_le h, List.map_cons]
      exact List.prefix_cons_inj i |>.mpr (ih (w.item i))
    · rw [within_cons_of_lt (Nat.lt_of_not_le h)]
      exact List.nil_prefix

/-- Not all items are in `Writer.within` of fewer bytes than there are. -/
private theorem length_within_lt (hc : c < (w.items is).position) (hstart : w.position ≤ c) :
    (w.within c is).length < is.length := by
  induction is generalizing w with
  | nil => exact absurd hc (Nat.not_lt_of_le hstart)
  | cons i is ih =>
    by_cases h : (w.item i).position ≤ c
    · rw [within_cons_of_le h, List.length_cons, List.length_cons]
      exact Nat.succ_lt_succ (ih hc h)
    · rw [within_cons_of_lt (Nat.lt_of_not_le h)]
      exact Nat.succ_pos _

end Writer

namespace Reader

/-- A reader stands where the writer of some items stood, and the bytes end at `c`. `Reader.items` reads
    the items that end by then, and afterwards nothing. -/
private theorem items_of_ahead_cut {is : List Item} (his : ∀ i ∈ is, i.Encodable) {r : Reader} {w : Writer}
    {c : Nat} (hposition : r.position = w.position) (hstart : w.position ≤ c)
    (hc : c < (w.items is).position)
    (h : r.ahead = (is.flatMap Item.bytes).take (c - w.position)) (kinds : List ItemKind) :
    r.items ((w.within c is).map (·.1.kind) ++ kinds) =
      (w.within c is).map (fun (i, stop) => (.ok i, stop)) ++
        kinds.map fun _ => (.error (.truncated c), c) := by
  -- Induction on the items; reader and writer move on together
  induction is generalizing r w with
  | nil => exact absurd hc (Nat.not_lt_of_le hstart)
  | cons i is ih =>
    obtain ⟨hi, hrest⟩ := List.forall_mem_cons.mp his
    have hnext := w.position_item i
    rw [List.flatMap_cons] at h
    by_cases hend : (w.item i).position ≤ c
    · -- The item is there, and the rest is cut off where it was before
      have hleft : c - w.position = i.bytes.length + (c - (w.item i).position) := by omega
      rw [hleft, List.take_length_add_append] at h
      have hmoved : (r.move i.bytes.length).position = (w.item i).position := by
        rw [hnext, ← hposition]
        rfl
      have hread := ih hrest hmoved hend hc (ahead_move h)
      rw [Writer.within_cons_of_le hend]
      simp only [List.map_cons, List.cons_append, items, item_of_ahead hi h, hread, hmoved]
    -- The cut is inside of this item, so reading stops there
    · have hcut : c - w.position < i.bytes.length := by omega
      rw [List.take_append_of_le_length (Nat.le_of_lt hcut)] at h
      have hstop : r.stop = c := by
        rw [stop, h, List.length_take, hposition]
        omega
      rw [Writer.within_cons_of_lt (Nat.lt_of_not_le hend), items_of_cut_item hcut h, hstop]
      rfl

/-- Of a stream that is cut off anywhere, `Reader.items` reads exactly the items that lie wholly in
    front of the cut, each with the position behind it.  There is at least one that does not, and it is
    not read: from there on every read, in either way, says that the bytes end at the cut, and stays
    there. -/
theorem items_of_cut {is : List Item} (his : ∀ i ∈ is, i.Encodable) {c : Nat}
    (hc : c < (Writer.empty.items is).bytes.size) :
    let whole := Writer.empty.within c is
    whole.map Prod.fst <+: is ∧ whole.length < is.length ∧
      ∀ kinds, Reader.items ⟨(Writer.empty.items is).bytes.take c, 0⟩
          (whole.map (·.1.kind) ++ kinds) =
        whole.map (fun (i, stop) => (.ok i, stop)) ++
          kinds.map fun _ => (.error (.truncated c), c) := by
  intro whole
  have hahead : ahead ⟨(Writer.empty.items is).bytes.take c, 0⟩ =
      (is.flatMap Item.bytes).take (c - Writer.empty.position) := by
    have hbytes := Writer.empty.toList_items is
    rw [ahead, List.drop_zero, Array.take_eq_extract, Array.toList_extract, hbytes]
    rfl
  exact ⟨Writer.empty.within_prefix c is, Writer.length_within_lt hc (Nat.zero_le c),
    items_of_ahead_cut his rfl (Nat.zero_le c) hc hahead⟩

/-- `items_of_cut` for an index of three bytes that is cut off behind its second one. -/
theorem items_of_cut_inside :
    let is : List Item := [.int 191, .bci 300, .bci 70000, .int 5]
    (∀ i ∈ is, i.Encodable) ∧ 5 < (Writer.empty.items is).bytes.size ∧
      Reader.items ⟨(Writer.empty.items is).bytes.take 5, 0⟩ (is.map Item.kind) =
        [(.ok (.int 191), 1), (.ok (.bci 300), 3), (.error (.truncated 5), 5),
          (.error (.truncated 5), 5)] := by
  intro is
  have his : ∀ i ∈ is, i.Encodable := by
    simp only [is, Item.Encodable, List.forall_mem_cons, List.not_mem_nil]
    simp
  have hc : 5 < (Writer.empty.items is).bytes.size := by decide +kernel
  obtain ⟨-, -, hread⟩ := items_of_cut his hc
  have hwhole : Writer.empty.within 5 is = [(.int 191, 1), (.bci 300, 3)] := by decide +kernel
  rw [hwhole] at hread
  exact ⟨his, hc, hread [.bci, .int]⟩

end Reader

end StackTrace.Unsigned5
