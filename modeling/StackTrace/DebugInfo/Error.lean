/-!
# Errors of compiled-code debug info
-/

namespace StackTrace.DebugInfo

/-- What can be wrong with the debug info of a compiled method, or with a question asked of it. -/
inductive Error where
  /-- The bytes end at `offset`, in the middle of an integer. -/
  | truncated (offset : Nat)
  /-- A scope record names entry `index` of a metadata table that has `length` entries. -/
  | badMetadataIndex (index length : Nat)
  /-- No scope record starts at `offset` of the `length` bytes. -/
  | badScopeOffset (offset length : Nat)
  /-- No call site was recorded at code offset `pc`. -/
  | missingPcDesc (pc : Nat)
  deriving DecidableEq, Repr

/-- The wording of an error. -/
def Error.message : Error → String
  | truncated offset => s!"debug info truncated at offset {offset}"
  | badMetadataIndex index length => s!"metadata index {index} out of range ({length} entries)"
  | badScopeOffset offset length => s!"scope offset {offset} outside debug info ({length} bytes)"
  | missingPcDesc pc => s!"no pc descriptor at code offset {pc}"

end StackTrace.DebugInfo
