import Std.Data.HashMap

/-!
# Symbols

The names of classes, methods and source files are symbols.  A symbol is its text together with an
identity: a table hands out one symbol for each text, so symbols from a table are identical exactly
if their texts are equal, while a free-standing symbol is identical to itself alone.
-/

namespace StackTrace

/-- A text with an identity. -/
structure Symbol where
  text : String
  identity : Nat
  deriving DecidableEq, Repr

namespace Symbol

/-- Two symbols are identical if they have one `identity`, not merely the same text. -/
def identical (a b : Symbol) : Bool := a.identity == b.identity

/-- Two symbols are equal by text. -/
def sameText (a b : Symbol) : Bool := a.text == b.text

end Symbol

/-- The symbols handed out so far. -/
structure SymbolTable where
  /-- The identity of each interned text. -/
  interned : Std.HashMap String Nat
  /-- The identity of the next symbol to be made. -/
  next : Nat

namespace SymbolTable

/-- No symbols yet. -/
def empty : SymbolTable := ⟨∅, 0⟩

/-- The symbol of `text`, made on first use. -/
def intern (t : SymbolTable) (text : String) : Symbol × SymbolTable :=
  match t.interned[text]? with
  | some identity => (⟨text, identity⟩, t)
  | none => (⟨text, t.next⟩, { interned := t.interned.insert text t.next, next := t.next + 1 })

/-- The symbol of `text`, if it has been interned. -/
def probe (t : SymbolTable) (text : String) : Option Symbol :=
  t.interned[text]?.map fun identity => ⟨text, identity⟩

/-- A free-standing symbol with an `identity` of its own, which the table does not remember. -/
def free (t : SymbolTable) (text : String) : Symbol × SymbolTable :=
  (⟨text, t.next⟩, { t with next := t.next + 1 })

/-- The number of interned texts. -/
def size (t : SymbolTable) : Nat := t.interned.size

/-- `SymbolTable.probe` finds a text that has been interned. -/
theorem probe_intern (t : SymbolTable) (text : String) :
    (t.intern text).2.probe text = some (t.intern text).1 := by
  unfold intern
  split <;> rename_i h <;> simp [probe, h]

/-- `SymbolTable.intern` of a text finds or loses no other. -/
theorem probe_intern_of_ne (t : SymbolTable) {text other : String} (h : other ≠ text) :
    (t.intern text).2.probe other = t.probe other := by
  unfold intern
  split
  · rfl
  · simp [probe, Std.HashMap.getElem?_insert, Ne.symm h]

/-- `SymbolTable.intern` gives a symbol of the text. -/
@[simp] theorem text_intern (t : SymbolTable) (text : String) : (t.intern text).1.text = text := by
  unfold intern
  split <;> rfl

/-- Interns a text that may be absent, with `intern`. -/
def intern? (t : SymbolTable) : Option String → Option Symbol × SymbolTable
  | none => (none, t)
  | some text =>
    let (symbol, t) := t.intern text
    (some symbol, t)

end SymbolTable

/-- The names that the runtime itself has to recognize. -/
structure WellKnownNames where
  /-- The routine that captures the current stack into a throwable. -/
  fillInStackTrace : Symbol
  /-- The name of every constructor. -/
  constructor : Symbol

/-- Interns the well-known names with `SymbolTable.intern`. -/
def WellKnownNames.intern (t : SymbolTable) : WellKnownNames × SymbolTable :=
  let (fillInStackTrace, t) := t.intern "fillInStackTrace"
  let (constructor, t) := t.intern "<init>"
  (⟨fillInStackTrace, constructor⟩, t)

end StackTrace
