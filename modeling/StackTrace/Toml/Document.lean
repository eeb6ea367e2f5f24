import StackTrace.Toml.Text

/-!
# TOML documents

A document is a sequence of lines: assignments of a value to a key, and headers that say which table
the assignments behind them belong to.  `statements?` reads the lines and `Entries.ofStatements?`
puts the tables together; `parse?` is both.

A key names a path of tables.  No value and no table is defined twice: a header opens a table that
so far was named only as a parent, and dotted keys add only to tables that dotted keys made.  Keys
and values may be nested less than eighty deep.
-/

namespace StackTrace.Toml

/-- The depth that keys and values have to stay below. -/
def depthLimit : Nat := 80

/-- A path of table names. -/
abbrev Key := List String

/-- Whether a character may stand in a key without quotes. -/
def isKeyChar (c : Char) : Bool := c.isAlphanum || c == '-' || c == '_'

/-- Takes one part of a key: a `quoted?` or `literal?` one, or one of characters that `isKeyChar`
    allows. -/
def keyPart? (cs : List Char) : Option (String × List Char) :=
  match cs with
  | '"' :: _ => quoted? cs
  | '\x27' :: _ => literal? cs
  | _ =>
    let part := cs.takeWhile isKeyChar
    if part.isEmpty then none else some (String.ofList part, cs.dropWhile isKeyChar)

/-- Takes a key of at most `fuel` parts, which are separated by dots, with blanks around them. -/
def key? : (fuel : Nat) → List Char → Option (Key × List Char)
  | 0, _ => none
  | fuel + 1, cs => do
    let (part, cs) ← keyPart? (skipBlanks cs)
    match skipBlanks cs with
    | '.' :: cs =>
      let (key, cs) ← key? fuel cs
      return (part :: key, cs)
    | cs => return ([part], cs)

/-- Takes a key by `key?` and the equals sign behind it. -/
def assigned? (cs : List Char) : Option (Key × List Char) := do
  let (key, cs) ← key? (depthLimit - 1) cs
  return (key, skipBlanks (← expect? '=' cs))

namespace Entries

/-- Adds a value under a dotted key; the tables on the way may only be ones that dotted keys made. -/
def assign? (entries : Entries) : Key → Value → Option Entries
  | [], _ => none
  | [key], value =>
    if (entries.lookup key).isSome then none else some (entries.set key value)
  | key :: path, value =>
    match entries.lookup key with
    | none => do return entries.set key (.table .dotted (← assign? [] path value))
    | some (.table .dotted inner) => do
      return entries.set key (.table .dotted (← assign? inner path value))
    | some _ => none

end Entries

mutual

/-- Takes a value that may be nested `depth` deep.  `fuel` bounds the number of pieces. -/
def value? (fuel depth : Nat) (cs : List Char) : Option (Value × List Char) :=
  match fuel with
  | 0 => none
  | fuel + 1 =>
    match cs with
    | '"' :: _ | '\x27' :: _ => (string? cs).map fun (s, rest) => (.string s, rest)
    | '[' :: rest =>
      if depth = 0 then none
      else (elements? fuel (depth - 1) [] rest).map fun (vs, rest) => (.array vs, rest)
    | '\x7b' :: rest =>
      if depth = 0 then none
      else
        match skipBlanks rest with
        | '\x7d' :: rest => some (.table .inline [], rest)
        | rest =>
          (fields? fuel (depth - 1) [] rest).map fun (es, rest) => (.table .inline es, rest)
    | _ => takeScalar cs
termination_by fuel

/-- Takes the rest of an array behind its opening bracket or a comma; `found` are the elements so
    far, latest first. -/
def elements? (fuel depth : Nat) (found : List Value) (cs : List Char) :
    Option (List Value × List Char) :=
  match fuel with
  | 0 => none
  | fuel + 1 =>
    match skipLines (cs.length + 1) cs with
    | none => none
    | some (']' :: rest) => some (found.reverse, rest)
    | some cs =>
      match value? fuel depth cs with
      | none => none
      | some (v, cs) =>
        match skipLines (cs.length + 1) cs with
        | some (',' :: rest) => elements? fuel depth (v :: found) rest
        | some (']' :: rest) => some ((v :: found).reverse, rest)
        | _ => none
termination_by fuel

/-- Takes the rest of a table in braces, from a key on; `found` are the entries so far. -/
def fields? (fuel depth : Nat) (found : Entries) (cs : List Char) : Option (Entries × List Char) :=
  match fuel with
  | 0 => none
  | fuel + 1 =>
    match assigned? cs with
    | none => none
    | some (key, cs) =>
      match value? fuel depth cs with
      | none => none
      | some (v, cs) =>
        match found.assign? key v with
        | none => none
        | some found =>
          match skipBlanks cs with
          | ',' :: rest => fields? fuel depth found rest
          | '\x7d' :: rest => some (found, rest)
          | _ => none
termination_by fuel

end

/-- One line of a document. -/
inductive Statement where
  /-- The assignments from here on are to the table of this name. -/
  | header (key : Key)
  /-- The assignments from here on are to a further table of the array of this name. -/
  | arrayHeader (key : Key)
  | assign (key : Key) (value : Value)

/-- Takes one line that is neither empty nor only a comment. -/
def statement? (cs : List Char) : Option (Statement × List Char) :=
  match cs with
  | '[' :: '[' :: cs => do
    let (key, cs) ← key? (depthLimit - 1) cs
    return (.arrayHeader key, ← lineEnd? (← expect? ']' (← expect? ']' cs)))
  | '[' :: cs => do
    let (key, cs) ← key? (depthLimit - 1) cs
    return (.header key, ← lineEnd? (← expect? ']' cs))
  | cs => do
    let (key, cs) ← assigned? cs
    let (value, cs) ← value? (cs.length + 1) (depthLimit - 1) cs
    return (.assign key value, ← lineEnd? cs)

/-- Reads the lines of a document, at most `fuel` of them, behind those in `found`, which come latest
    first. -/
def statementsFrom? : (fuel : Nat) → (found : List Statement) → List Char → Option (List Statement)
  | 0, _, _ => none
  | fuel + 1, found, cs =>
    match skipBlanks cs with
    | [] => some found.reverse
    | c :: rest =>
      if c == '#' || c == '\n' || c == '\r' then do
        statementsFrom? fuel found (← lineEnd? (c :: rest))
      else do
        let (s, rest) ← statement? (c :: rest)
        statementsFrom? fuel (s :: found) rest

/-- Reads the lines of a document with `statement?`; it may begin with a byte order mark. -/
def statements? (text : String) : Option (List Statement) :=
  match text.toList with
  | '\uFEFF' :: cs => statementsFrom? (cs.length + 1) [] cs
  | cs => statementsFrom? (cs.length + 1) [] cs

namespace Entries

/-- Changes the table that a header's path leads to; missing tables on the way are implied by it. -/
def modifyAt? (entries : Entries) (f : Entries → Option Entries) : Key → Option Entries
  | [] => f entries
  | key :: path =>
    match entries.lookup key with
    | none => do return entries.set key (.table .implicit (← modifyAt? [] f path))
    | some (.table .inline _) => none
    | some (.table kind inner) => do
      return entries.set key (.table kind (← modifyAt? inner f path))
    | some (.tables (last :: earlier)) => do
      return entries.set key (.tables ((← modifyAt? last f path) :: earlier))
    | some _ => none

/-- Opens the table of a header. -/
def open? (entries : Entries) (key : Key) : Option Entries := do
  let name ← key.getLast?
  let enter (parent : Entries) : Option Entries :=
    match parent.lookup name with
    | none => some (parent.set name (.table .header []))
    | some (.table .implicit inner) => some (parent.set name (.table .header inner))
    | some _ => none
  entries.modifyAt? enter key.dropLast

/-- Opens a further table of the array of a header. -/
def append? (entries : Entries) (key : Key) : Option Entries := do
  let name ← key.getLast?
  let enter (parent : Entries) : Option Entries :=
    match parent.lookup name with
    | none => some (parent.set name (.tables [[]]))
    | some (.tables elements) => some (parent.set name (.tables ([] :: elements)))
    | some _ => none
  entries.modifyAt? enter key.dropLast

/-- Puts the tables of a document together; `current` is the table that assignments go to. -/
def ofStatements? (entries : Entries) (current : Key) : List Statement → Option Entries
  | [] => some entries
  | .header key :: rest => do ofStatements? (← entries.open? key) key rest
  | .arrayHeader key :: rest => do ofStatements? (← entries.append? key) key rest
  | .assign key value :: rest => do
    ofStatements? (← entries.modifyAt? (·.assign? key value) current) current rest

end Entries

/-- The entries that the `statements?` of a document build, if it is well formed. -/
def parse? (text : String) : Option Entries := do
  Entries.ofStatements? [] [] (← statements? text)

end StackTrace.Toml
