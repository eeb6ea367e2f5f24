import StackTrace.DebugInfo.Error

/-!
# The UNSIGNED5 integer format

Debug info is a sequence of 32-bit integers, most of them small.  A value below 192 is one byte.
A larger value gives up `192 + r`, where `r` is the low base-64 digit of what exceeds 192, and the
rest follows in the same way; after four such bytes the fifth holds whatever is left.  A byte of
192 or more therefore announces another one, unless it is the fifth.

`encode` lists the bytes of a value, `Reader.int` takes one integer off a byte sequence.  A bytecode
index is stored one higher than it is, which gives the synchronization entry `-1` the byte 0.
-/

namespace StackTrace.Unsigned5

/-- The bytes of `value` when at most `spills` bytes may announce another one. -/
def digits : Nat → Nat → List UInt8
  | 0, value => [value.toUInt8]
  | spills + 1, value =>
    if value < 192 then [value.toUInt8]
    else (192 + (value - 192) % 64).toUInt8 :: digits spills ((value - 192) / 64)

/-- The one to five bytes of an integer, its `digits`. -/
def encode (value : UInt32) : List UInt8 :=
  digits 4 value.toNat

/-- A bytecode index as the word that stands for it; `-1` is word 0. -/
def bciWord (bci : Int) : UInt32 :=
  UInt32.ofInt (bci + 1)

/-- The bytecode index that a word stands for; undoes `bciWord`. -/
def wordBci (word : UInt32) : Int :=
  word.toInt32.toInt - 1

/-- The one to five bytes of a bytecode index, those of its `bciWord`. -/
def encodeBci (bci : Int) : List UInt8 :=
  encode (bciWord bci)

/-- A place in a byte sequence. -/
structure Reader where
  bytes : Array UInt8
  position : Nat

namespace Reader

/-- The byte under the reader, which moves past it. -/
def byte (r : Reader) : Except DebugInfo.Error UInt8 × Reader :=
  match r.bytes[r.position]? with
  | some b => (.ok b, { r with position := r.position + 1 })
  | none => (.error (.truncated r.position), r)

/-- Reads on from a partial `sum`, whose next digit has weight `2 ^ shift`; at most `spills` of the
    bytes still to come may announce another one.  The sum is taken modulo `2 ^ 32`. -/
def intFrom : (spills : Nat) → (shift sum : UInt32) → Reader → Except DebugInfo.Error UInt32 × Reader
  | spills, shift, sum, r =>
    match r.byte with
    | (.error e, r) => (.error e, r)
    | (.ok b, r) =>
      let sum := sum + (b.toUInt32 <<< shift)
      match spills with
      | 0 => (.ok sum, r)
      | spills + 1 => if b < 192 then (.ok sum, r) else intFrom spills (shift + 6) sum r

/-- The integer that starts under the reader, by `intFrom`.  When the bytes end early the reader stays
    where they ended. -/
def int (r : Reader) : Except DebugInfo.Error UInt32 × Reader :=
  r.intFrom 4 0 0

/-- The bytecode index that starts under the reader: the `wordBci` of the integer there. -/
def bci (r : Reader) : Except DebugInfo.Error Int × Reader :=
  match r.int with
  | (.ok word, r) => (.ok (wordBci word), r)
  | (.error e, r) => (.error e, r)

end Reader

/-- A byte sequence under construction. -/
structure Writer where
  bytes : Array UInt8

namespace Writer

/-- Nothing written yet. -/
def empty : Writer := ⟨#[]⟩

/-- Where the next byte goes.  `Writer.position` is an exact number of bytes: it is meant to fit in 32
    bits, and buffers of `2 ^ 32` bytes and more are outside of what is modelled here. -/
def position (w : Writer) : Nat := w.bytes.size

/-- Appends one raw byte. -/
def byte (w : Writer) (b : UInt8) : Writer := ⟨w.bytes.push b⟩

/-- Appends the bytes that `encode` gives an integer. -/
def int (w : Writer) (value : UInt32) : Writer := ⟨w.bytes ++ encode value⟩

/-- Appends the bytes that `encodeBci` gives a bytecode index. -/
def bci (w : Writer) (bci : Int) : Writer := ⟨w.bytes ++ encodeBci bci⟩

/-- `Writer.empty` stands at the start. -/
@[simp] theorem position_empty : empty.position = 0 := rfl

/-- `Writer.byte` moves the position by one. -/
@[simp] theorem position_byte (w : Writer) (b : UInt8) :
    (w.byte b).position = w.position + 1 := by
  simp [position, byte]

/-- `Writer.int` moves the position by the length of the code. -/
@[simp] theorem position_int (w : Writer) (value : UInt32) :
    (w.int value).position = w.position + (encode value).length := by
  simp [position, int, ← Array.length_toList]

/-- `Writer.bci` moves the position by the length of the code. -/
@[simp] theorem position_bci (w : Writer) (index : Int) :
    (w.bci index).position = w.position + (encodeBci index).length := by
  simp [position, bci, ← Array.length_toList]

end Writer

end StackTrace.Unsigned5
