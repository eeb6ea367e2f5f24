import StackTrace.Proofs.DebugInfo.Streams

/-!
# The one way to write an integer

An integer ends at its first byte below 192, or at the fifth byte.  Read as base-64 digits, lowest first,
the bytes stand for a number, and their reader gives that number modulo `2 ^ 32`.  A byte that announces
another one is 192 plus a digit below 64, so these bytes are the digits of no other number.

Four bytes never come to `2 ^ 32`.  Five may, and then the number that is read is written otherwise.

## Key results

- `IsRun.digits_exactValue`: the bytes of an integer are the digits of the number they stand for
- `Reader.intFrom_ok`: what has been read is what lies between the two positions
- `Reader.written_iff_of_int`: which bytes are what the integer read from them is written as
-/

namespace StackTrace.Unsigned5

/-- The number that bytes stand for: each byte counts 64 times as much as the one before it. -/
def exactValue : List UInt8 → Nat
  | [] => 0
  | b :: bs => b.toNat + 64 * exactValue bs

@[simp] theorem exactValue_nil : exactValue [] = 0 := rfl

@[simp] theorem exactValue_cons (b : UInt8) (bs : List UInt8) :
    exactValue (b :: bs) = b.toNat + 64 * exactValue bs := rfl

/-- The bytes of one integer, of which at most `spills` announce another: all of them do but the
    last. -/
inductive IsRun : (spills : Nat) → List UInt8 → Prop
  /-- Here no byte can announce another. -/
  | forced (b : UInt8) : IsRun 0 [b]
  | last {spills : Nat} {b : UInt8} (hlast : b < 192) : IsRun (spills + 1) [b]
  | more {spills : Nat} {b : UInt8} {bs : List UInt8} (hmore : ¬b < 192) (hrest : IsRun spills bs) :
    IsRun (spills + 1) (b :: bs)

namespace IsRun

variable {spills : Nat} {bs : List UInt8}

/-- An `IsRun` has at least one byte. -/
private theorem length_pos (h : IsRun spills bs) : 0 < bs.length := by
  cases h with
  | forced b => exact Nat.one_pos
  | last hlast => exact Nat.one_pos
  | more hmore hrest => exact Nat.succ_pos _

/-- An `IsRun` has at most one byte more than it has spills. -/
private theorem length_le (h : IsRun spills bs) : bs.length ≤ spills + 1 := by
  induction h with
  | forced b => exact Nat.le_refl 1
  | last hlast => exact Nat.le_add_left 1 _
  | more hmore hrest ih => exact Nat.succ_le_succ ih

/-- The bytes of an `IsRun` are the `digits` of their `exactValue`. -/
theorem digits_exactValue (h : IsRun spills bs) : digits spills (exactValue bs) = bs := by
  induction h with
  | forced b => simp [digits]
  | @last spills b hlast =>
    have hsmall : b.toNat < 192 := by simpa [UInt8.lt_iff_toNat_lt] using hlast
    simp [digits, hsmall]
  | @more spills b bs hmore hrest ih =>
    -- The byte is 192 and the lowest digit of what is left of the number
    have hlarge : 192 ≤ b.toNat := by simpa [UInt8.lt_iff_toNat_lt] using hmore
    have hbyte := b.toNat_lt
    have hdigit : 192 + (b.toNat + 64 * exactValue bs - 192) % 64 = b.toNat := by omega
    have hrest : (b.toNat + 64 * exactValue bs - 192) / 64 = exactValue bs := by omega
    have hspill : ¬b.toNat + 64 * exactValue bs < 192 := by omega
    rw [exactValue_cons, digits, if_neg hspill, hdigit, hrest, ih]
    simp

/-- Without wrapping, `encode` writes the number as the bytes that it was read from. -/
private theorem encode_exactValue (h : IsRun 4 bs) (hfits : exactValue bs < 2 ^ 32) :
    encode (UInt32.ofNat (exactValue bs)) = bs := by
  rw [encode, UInt32.toNat_ofNat_of_lt' hfits, h.digits_exactValue]

end IsRun

/-- `exactValue` comes to no more than if each byte were 255. -/
private theorem exactValue_le (bs : List UInt8) : exactValue bs + 5 ≤ 5 * 64 ^ bs.length := by
  induction bs with
  | nil => simp
  | cons b bs ih =>
    have hbyte := b.toNat_lt
    rw [exactValue_cons, List.length_cons, Nat.pow_succ]
    omega

/-- The `exactValue` of the `digits` of a number is the number, if it fits so many bytes. -/
private theorem exactValue_digits {spills value : Nat} (hvalue : value < 2 ^ (8 + 6 * spills)) :
    exactValue (digits spills value) = value := by
  -- Induction on the number of bytes that may announce another
  induction spills generalizing value with
  | zero =>
    simp only [digits, exactValue_cons, exactValue_nil, UInt8.toNat_ofNat']
    omega
  | succ spills ih =>
    -- What the bytes behind the first hold is one digit shorter
    have hpow : 2 ^ (8 + 6 * (spills + 1)) = 2 ^ (8 + 6 * spills) * 64 := by
      rw [Nat.mul_succ, ← Nat.add_assoc, Nat.pow_add]
    have hrest : exactValue (digits spills ((value - 192) / 64)) = (value - 192) / 64 := ih (by omega)
    rw [digits]
    split
    · simp only [exactValue_cons, exactValue_nil, UInt8.toNat_ofNat']
      omega
    · rw [exactValue_cons, hrest, UInt8.toNat_ofNat']
      omega

/-- The `exactValue` of the bytes of an integer is the integer. -/
private theorem exactValue_encode (value : UInt32) : exactValue (encode value) = value.toNat :=
  exactValue_digits value.toNat_lt

/-- `Writer.int` appends the given bytes exactly if they are what `encode` gives. -/
private theorem Writer.toList_int_eq_iff {w : Writer} {value : UInt32} {bs : List UInt8} :
    (w.int value).bytes.toList = w.bytes.toList ++ bs ↔ encode value = bs := by
  have hwritten : (w.int value).bytes.toList = w.bytes.toList ++ encode value :=
    w.toList_item (.int value)
  rw [hwritten]
  exact ⟨List.append_cancel_left, congrArg _⟩

namespace Reader

variable {r r' : Reader}

/-! ## What has been read -/

/-- `Reader.byte` takes the first byte of what lies ahead. -/
private theorem byte_ok {b : UInt8} (h : r.byte = (.ok b, r')) :
    r' = r.move 1 ∧ r.ahead = b :: r'.ahead := by
  unfold byte at h
  split at h
  · rename_i hget
    cases h
    obtain ⟨hlt, hbyte⟩ := Array.getElem?_eq_some_iff.mp hget
    refine ⟨rfl, ?_⟩
    rw [← Array.length_toList] at hlt
    rw [ahead, List.drop_eq_getElem_cons hlt, Array.getElem_toList, hbyte]
    rfl
  · cases h

/-- What `Reader.intFrom` has read of an integer from some byte on is an `IsRun` between the two
    positions, and adds the number it stands for, in its place, to the sum. -/
theorem intFrom_ok {spills : Nat} {shift sum v : UInt32} (hshift : shift.toNat + 6 * spills < 32)
    (h : r.intFrom spills shift sum = (.ok v, r')) :
    ∃ bs, IsRun spills bs ∧ r' = r.move bs.length ∧ r.ahead = bs ++ r'.ahead ∧
      v = sum + UInt32.ofNat (exactValue bs * 2 ^ shift.toNat) := by
  -- Induction on the number of bytes that may announce another; the sum grows along with it
  induction spills generalizing r shift sum with
  | zero =>
    unfold intFrom at h
    split at h
    · cases h
    · rename_i b r₁ hbyte
      cases h
      obtain ⟨hmove, hahead⟩ := byte_ok hbyte
      refine ⟨[b], .forced b, hmove, hahead, ?_⟩
      simp [shiftLeft_eq_ofNat (show shift.toNat < 32 by omega)]
  | succ spills ih =>
    unfold intFrom at h
    split at h
    · cases h
    · rename_i b r₁ hbyte
      obtain ⟨hmove, hahead⟩ := byte_ok hbyte
      have hplace := shiftLeft_eq_ofNat (b := b) (show shift.toNat < 32 by omega)
      simp only at h
      split at h
      -- A byte below 192 is the last one
      · rename_i hlast
        cases h
        refine ⟨[b], .last hlast, hmove, hahead, ?_⟩
        simp [hplace]
      -- A byte of 192 or more announces another
      · rename_i hmore
        have hshift' := toNat_add_six (show shift.toNat + 6 < 32 by omega)
        obtain ⟨bs, hrun, hmove', hahead', hv⟩ := ih (by omega) h
        refine ⟨b :: bs, .more hmore hrun, ?_, ?_, ?_⟩
        · rw [hmove', hmove, move_move, List.length_cons, Nat.add_comm]
        · rw [hahead, hahead', List.cons_append]
        · -- The byte here and the bytes to come make up the number
          have hsplit : exactValue (b :: bs) * 2 ^ shift.toNat =
              b.toNat * 2 ^ shift.toNat + exactValue bs * 2 ^ (shift.toNat + 6) := by
            rw [exactValue_cons]
            ring
          rw [hv, hplace, hshift', hsplit, UInt32.ofNat_add, UInt32.add_assoc]

/-- The bytes between the positions of two readers. -/
def between (r r' : Reader) : List UInt8 := r.ahead.take (r'.position - r.position)

/-- `Reader.between` gives back the bytes that a reader was moved over. -/
private theorem between_move {bs rest : List UInt8} (h : r.ahead = bs ++ rest) :
    r.between (r.move bs.length) = bs := by
  have hposition : (r.move bs.length).position - r.position = bs.length := Nat.add_sub_cancel_left _ _
  rw [between, hposition, h, List.take_left]

/-- An integer has been read: the bytes of it, and their number modulo `2 ^ 32`. -/
private theorem int_ok {v : UInt32} (h : r.int = (.ok v, r')) :
    IsRun 4 (r.between r') ∧ r' = r.move (r.between r').length ∧
      v = UInt32.ofNat (exactValue (r.between r')) := by
  obtain ⟨bs, hrun, hmove, hahead, hv⟩ := intFrom_ok (by decide) h
  have hbetween : r.between r' = bs := by
    rw [hmove] at hahead ⊢
    exact between_move hahead
  rw [hbetween]
  exact ⟨hrun, hmove, by simpa using hv⟩

/-- `Reader.int` reads the bytes as an integer, to their end. -/
def Reads (bs : List UInt8) (v : UInt32) : Prop :=
  Reader.int ⟨bs.toArray, 0⟩ = (.ok v, ⟨bs.toArray, bs.length⟩)

/-- `encode` writes bytes that are read as their integer. -/
private theorem reads_encode (v : UInt32) : Reads (encode v) v := by
  have hahead : ahead ⟨(encode v).toArray, 0⟩ = encode v ++ [] := by simp [ahead]
  have hread := int_encode hahead
  rwa [move, Nat.zero_add] at hread

/-- Bytes that are read without wrapping are what `encode` writes their integer as. -/
private theorem Reads.eq_encode {bs : List UInt8} {v : UInt32} (h : Reads bs v)
    (hfits : exactValue bs < 2 ^ 32) : bs = encode v := by
  obtain ⟨hrun, -, hv⟩ := int_ok h
  have hall : between ⟨bs.toArray, 0⟩ ⟨bs.toArray, bs.length⟩ = bs := by simp [between, ahead]
  rw [hall] at hrun hv
  rw [hv, hrun.encode_exactValue hfits]

/-- Wherever `Reader.int` reads an integer, it takes the one to five bytes up to where the reader then
    stands, and is the number that these bytes stand for, modulo `2 ^ 32`.  `Writer.int` writes it as
    just these bytes if and only if that number is below `2 ^ 32`; otherwise there are five of them.  So
    of all bytes that are read as an integer without wrapping, there is one way to write it. -/
theorem written_iff_of_int {v : UInt32} (h : r.int = (.ok v, r')) :
    let bs := r.between r'
    r' = r.move bs.length ∧ 1 ≤ bs.length ∧ bs.length ≤ 5 ∧
      v.toNat = exactValue bs % 2 ^ 32 ∧
      (∀ w : Writer, (w.int v).bytes.toList = w.bytes.toList ++ bs ↔ exactValue bs < 2 ^ 32) ∧
      (2 ^ 32 ≤ exactValue bs → bs.length = 5) ∧
      ∃! cs, Reads cs v ∧ exactValue cs < 2 ^ 32 := by
  intro bs
  obtain ⟨hrun, hmove, hv⟩ := int_ok h
  refine ⟨hmove, hrun.length_pos, hrun.length_le, ?_, fun w => ?_, fun hlarge => ?_, encode v, ?_, ?_⟩
  · rw [hv, UInt32.toNat_ofNat']
  -- What is written is `encode v`, whose number is that of a word
  · rw [Writer.toList_int_eq_iff]
    constructor
    · intro hwritten
      rw [← hwritten, exactValue_encode]
      exact v.toNat_lt
    · intro hfits
      rw [hv, hrun.encode_exactValue hfits]
  · -- With four bytes or fewer the number is below `2 ^ 32`
    refine Nat.le_antisymm hrun.length_le (Nat.le_of_not_lt fun hshort => ?_)
    have hle := exactValue_le bs
    have hpow : 64 ^ bs.length ≤ 64 ^ 4 := Nat.pow_le_pow_right (by decide) (Nat.le_of_lt_succ hshort)
    omega
  -- One way to write it is `encode v`, and every other one is the same
  · refine ⟨reads_encode v, ?_⟩
    rw [exactValue_encode]
    exact v.toNat_lt
  · rintro cs ⟨hreads, hfits⟩
    exact hreads.eq_encode hfits

/-- The five bytes behind another one stand for `2 ^ 32 + 798912`.  They are read as 798912, which is
    written as four bytes. -/
theorem written_iff_of_int_wrapped :
    let r : Reader := ⟨#[7, 192, 192, 192, 192, 253, 9], 1⟩
    let bs : List UInt8 := [192, 192, 192, 192, 253]
    r.int = (.ok 798912, ⟨r.bytes, 6⟩) ∧ exactValue bs = 2 ^ 32 + 798912 ∧
      (Writer.empty.int 798912).bytes.toList ≠ bs := by
  intro r bs
  have hread : r.int = (.ok 798912, ⟨r.bytes, 6⟩) := by cbv
  have hexact : exactValue bs = 2 ^ 32 + 798912 := by decide +kernel
  obtain ⟨-, -, -, -, hiff, -⟩ := written_iff_of_int hread
  refine ⟨hread, hexact, fun hwritten => ?_⟩
  -- The number that the bytes stand for does not fit
  have hfits : exactValue bs < 2 ^ 32 := (hiff Writer.empty).mp hwritten
  omega

end Reader

end StackTrace.Unsigned5
