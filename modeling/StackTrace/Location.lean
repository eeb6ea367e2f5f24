import StackTrace.Violation

/-!
# Stored locations

A stored frame keeps its bytecode index and the generation of its class in one 32-bit word: the
index in the high half, the generation, saturated at 65535, in the low half.  The saturated value
is reserved: it belongs to no generation, so a frame that carries it is never taken for live code.
-/

namespace StackTrace

/-- The bytecode index of an activation that is still entering a synchronized method. -/
def syncEntryBci : Int := -1

/-- A packed bytecode index and class version. -/
structure Location where
  word : UInt32
  deriving DecidableEq, Repr

namespace Location

/-- The version that every generation from 65535 on is stored as. -/
def saturatedVersion : Nat := 65535

/-- The largest bytecode index that a `Location` can hold. -/
def maxBci : Int := 65535

/-- Whether a bytecode index can be stored: it is `syncEntryBci`, or not negative and at most
    `maxBci`. -/
def fits (bci : Int) : Bool :=
  bci == syncEntryBci || (0 ≤ bci && bci ≤ maxBci)

/-- The class version that a generation is stored as, at most `saturatedVersion`. -/
def versionOf (generation : Nat) : Nat :=
  min generation saturatedVersion

/-- Packs a bytecode index, which has to be one that `fits`, and the `versionOf` a class generation.
    The synchronization entry is stored as index 0. -/
def pack (bci : Int) (generation : Nat) : Except Violation Location :=
  if fits bci then .ok ⟨UInt32.ofNat (bci.toNat * 65536 + versionOf generation)⟩
  else .error (.bciDoesNotFit bci)

/-- `Location.pack` succeeds for the indices that can be stored, and for no others. -/
theorem pack_eq_error_iff (bci : Int) (generation : Nat) (v : Violation) :
    pack bci generation = .error v ↔ fits bci = false ∧ v = .bciDoesNotFit bci := by
  cases h : fits bci <;> simp [pack, h, eq_comm]

/-- The stored bytecode index. -/
def bci (l : Location) : Int := (l.word.toNat / 65536 : Nat)

/-- The stored class version. -/
def version (l : Location) : Nat := l.word.toNat % 65536

end Location

/-- Whether code of generation `generation` still is what a frame of class version `version` was
    recorded from. -/
def versionMatches (generation version : Nat) : Bool :=
  version != Location.saturatedVersion && generation == version

end StackTrace
