import StackTrace.DebugInfo.Unsigned5
import Mathlib.Tactic.Ring

/-!
# Reading back what was written

A reader that stands before the bytes of an integer reads that integer and stops behind them, whatever
follows.  The digits of a value are all below 256 as long as the value fits the number of bytes left
(`intFrom_digits` carries that bound through the digits), and the sum of the digits is taken modulo
`2 ^ 32`, so it is compared as a 32-bit word and not as a number.

## Key results

- `Reader.int_encode`: integers read back
- `Reader.bci_encodeBci`: bytecode indices from -1 to `2 ^ 31 - 2` read back
-/

namespace StackTrace.Unsigned5

/-! ### The length of an integer -/

/-- `digits` gives at least one byte. -/
private theorem length_digits_pos (spills value : Nat) : 0 < (digits spills value).length := by
  cases spills with
  | zero => simp [digits]
  | succ spills => simp only [digits]; split <;> simp

/-- `encode` gives at least one byte. -/
theorem length_encode_pos (value : UInt32) : 0 < (encode value).length :=
  length_digits_pos 4 value.toNat

namespace Reader

/-! ### The bytes ahead of a reader -/

/-- The bytes from the position of the `Reader` on. -/
def ahead (r : Reader) : List UInt8 := r.bytes.toList.drop r.position

/-- The reader `n` bytes further on. -/
def move (r : Reader) (n : Nat) : Reader := { r with position := r.position + n }

@[simp] theorem bytes_move (r : Reader) (n : Nat) : (r.move n).bytes = r.bytes := rfl

@[simp] theorem move_move (r : Reader) (n k : Nat) : (r.move n).move k = r.move (n + k) := by
  simp [move, Nat.add_assoc]

/-- `Reader.move` leaves behind the bytes that it goes over. -/
theorem ahead_move {r : Reader} {before rest : List UInt8} (h : r.ahead = before ++ rest) :
    (r.move before.length).ahead = rest := by
  have hdrop : (r.move before.length).ahead = r.ahead.drop before.length := by
    simp [ahead, move, List.drop_drop]
  rw [hdrop, h, List.drop_left]

/-- `Reader.byte` takes the first byte of what lies ahead. -/
theorem byte_of_ahead {r : Reader} {b : UInt8} {rest : List UInt8} (h : r.ahead = b :: rest) :
    r.byte = (.ok b, r.move 1) := by
  have hget : r.bytes[r.position]? = some b := by
    have hhead := congrArg (·[0]?) h
    simpa [ahead, List.getElem?_drop] using hhead
  simp only [byte, hget]
  rfl

/-! ### Integers -/

/-- A digit that is shifted into its place, as a word given by `UInt32.ofNat`. -/
theorem shiftLeft_eq_ofNat {b : UInt8} {shift : UInt32} (hshift : shift.toNat < 32) :
    b.toUInt32 <<< shift = UInt32.ofNat (b.toNat * 2 ^ shift.toNat) := by
  apply UInt32.toNat_inj.mp
  rw [UInt32.toNat_shiftLeft, UInt8.toNat_toUInt32, Nat.mod_eq_of_lt hshift, Nat.shiftLeft_eq,
    UInt32.toNat_ofNat']

/-- The place of the next digit is six bits further up, as long as `UInt32` does not wrap. -/
theorem toNat_add_six {shift : UInt32} (hshift : shift.toNat + 6 < 32) :
    (shift + 6).toNat = shift.toNat + 6 := by
  rw [UInt32.toNat_add]
  have : (6 : UInt32).toNat = 6 := rfl
  omega

/-- `Reader.intFrom`, before the `digits` of a value, adds the value, in its place, to the sum so
    far. -/
theorem intFrom_digits {spills value : Nat} (hvalue : value < 2 ^ (8 + 6 * spills))
    {shift : UInt32} (hshift : shift.toNat + 6 * spills < 32) {sum : UInt32} {r : Reader}
    {rest : List UInt8} (h : r.ahead = digits spills value ++ rest) :
    r.intFrom spills shift sum =
      (.ok (sum + UInt32.ofNat (value * 2 ^ shift.toNat)), r.move (digits spills value).length) := by
  -- Induction on the number of bytes that may announce another; value, place and sum move along
  induction spills generalizing value shift sum r with
  | zero =>
    have hbyte := byte_of_ahead h
    have hfits : value.toUInt8.toNat = value := by
      rw [UInt8.toNat_ofNat']
      omega
    unfold intFrom
    simp only [digits, hbyte, shiftLeft_eq_ofNat (show shift.toNat < 32 by omega), hfits]
    rfl
  | succ spills ih =>
    simp only [digits] at h ⊢
    split at h
    · -- One byte, which announces no other
      rename_i hsmall
      rw [if_pos hsmall]
      have hbyte := byte_of_ahead h
      have hfits : value.toUInt8.toNat = value := by
        rw [UInt8.toNat_ofNat']
        omega
      have hlast : value.toUInt8 < 192 := by
        rw [UInt8.lt_iff_toNat_lt, hfits]
        exact hsmall
      unfold intFrom
      simp only [hbyte, if_pos hlast, shiftLeft_eq_ofNat (show shift.toNat < 32 by omega), hfits]
      rfl
    · rename_i hlarge
      rw [if_neg hlarge]
      have hbyte := byte_of_ahead h
      have hfits : (192 + (value - 192) % 64).toUInt8.toNat = 192 + (value - 192) % 64 := by
        rw [UInt8.toNat_ofNat']
        omega
      have hmore : ¬ (192 + (value - 192) % 64).toUInt8 < 192 := by
        rw [UInt8.lt_iff_toNat_lt, hfits]
        simp
      have hshift' := toNat_add_six (show shift.toNat + 6 < 32 by omega)
      have hvalue' : (value - 192) / 64 < 2 ^ (8 + 6 * spills) := by
        have hpow : 2 ^ (8 + 6 * (spills + 1)) = 2 ^ (8 + 6 * spills) * 64 := by
          rw [show 8 + 6 * (spills + 1) = 8 + 6 * spills + 6 by omega, Nat.pow_add]
        rw [Nat.div_lt_iff_lt_mul (by decide)]
        omega
      -- Past the byte, what lies ahead are the digits of the value that is left
      have hrest : (r.move 1).ahead = digits spills ((value - 192) / 64) ++ rest := by
        exact @ahead_move r [_] _ h
      -- The digit here and the value of the digits to come make up the value
      have hsplit : value * 2 ^ shift.toNat =
          (192 + (value - 192) % 64) * 2 ^ shift.toNat
            + (value - 192) / 64 * 2 ^ (shift.toNat + 6) := by
        have hdiv : value = 192 + (value - 192) % 64 + (value - 192) / 64 * 64 := by omega
        conv_lhs => rw [hdiv]
        ring
      unfold intFrom
      simp only [hbyte, if_neg hmore]
      rw [ih hvalue' (by omega) hrest, hshift', hsplit, UInt32.ofNat_add,
        shiftLeft_eq_ofNat (show shift.toNat < 32 by omega), hfits, UInt32.add_assoc, move_move,
        List.length_cons, Nat.add_comm 1]

/-- `Reader.int` reads back what `encode` gives. -/
theorem int_encode {value : UInt32} {r : Reader} {rest : List UInt8}
    (h : r.ahead = encode value ++ rest) :
    r.int = (.ok value, r.move (encode value).length) := by
  have hvalue : value.toNat < 2 ^ (8 + 6 * 4) := value.toNat_lt
  have hread : r.intFrom 4 0 0 = _ := intFrom_digits hvalue (by decide) h
  simpa [int, encode] using hread

/-! ### Bytecode indices -/

/-- `wordBci` recovers a bytecode index from its word. -/
private theorem wordBci_bciWord {index : Int} (hlow : -1 ≤ index) (hhigh : index ≤ 2 ^ 31 - 2) :
    wordBci (bciWord index) = index := by
  obtain ⟨word, hword⟩ : ∃ word : Nat, index + 1 = word := Int.eq_ofNat_of_zero_le (by omega)
  have hsigned : (UInt32.ofInt (index + 1)).toInt32.toInt = word := by
    have hofNat : UInt32.ofInt (index + 1) = UInt32.ofNat word := by
      rw [hword]
      apply UInt32.toNat_inj.mp
      simp [UInt32.ofInt]
      omega
    rw [hofNat, UInt32.toInt32_ofNat', Int32.toInt_ofNat_of_lt (by omega)]
  simp only [wordBci, bciWord, hsigned]
  omega

/-- `Reader.bci` reads back what `encodeBci` gives. -/
theorem bci_encodeBci {index : Int} (hlow : -1 ≤ index) (hhigh : index ≤ 2 ^ 31 - 2) {r : Reader}
    {rest : List UInt8} (h : r.ahead = encodeBci index ++ rest) :
    r.bci = (.ok index, r.move (encodeBci index).length) := by
  have hint := int_encode h
  simp only [bci, hint, wordBci_bciWord hlow hhigh]
  rfl

end Reader

end StackTrace.Unsigned5
