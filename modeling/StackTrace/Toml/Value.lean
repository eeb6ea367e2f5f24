/-!
# TOML values

The values a TOML document is made of.  Floats and dates are kept as the text they were written as:
no setting is one.
-/

namespace StackTrace.Toml

/-- How a table came about, which decides what may still be added to it. -/
inductive TableKind where
  /-- Written in braces; complete as it stands. -/
  | inline
  /-- Named only as the parent of a table with a header of its own. -/
  | implicit
  /-- Opened by its own header. -/
  | header
  /-- Named only by dotted keys. -/
  | dotted
  deriving DecidableEq, Repr

/-- A TOML value. -/
inductive Value where
  | string (text : String)
  | integer (value : Int)
  | float (text : String)
  | boolean (value : Bool)
  | date (text : String)
  | array (elements : List Value)
  | table (kind : TableKind) (entries : List (String × Value))
  /-- Tables that were each opened by a header in double brackets, latest first. -/
  | tables (elements : List (List (String × Value)))

/-- The entries of a table. -/
abbrev Entries := List (String × Value)

/-- Puts a value under a key, in place of one that is there. -/
def Entries.set (entries : Entries) (key : String) (value : Value) : Entries :=
  (key, value) :: entries.filter (·.1 != key)

end StackTrace.Toml
