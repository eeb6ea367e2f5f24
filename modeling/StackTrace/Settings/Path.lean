/-!
# Path texts

A path is a text; slashes separate its parts.  `parent?` and `join` work on the text alone: the
parent of `a/b/..` is `a/b`.  What a path stands for is up to the file tree that it is looked up in.
-/

namespace StackTrace

/-- A path, as it is written. -/
structure Path where
  text : String
  deriving DecidableEq, Repr

namespace Path

/-- The path with one more part. -/
def join (p : Path) (part : String) : Path :=
  if p.text.isEmpty || p.text.endsWith "/" then ⟨p.text ++ part⟩ else ⟨p.text ++ "/" ++ part⟩

/-- A path, last character first, without the slashes and dots at its end that name no part.  A
    slash that is the whole path stays. -/
def trimEnd : List Char → List Char
  | [] => []
  | ['/'] => ['/']
  | '/' :: rest => trimEnd rest
  | '.' :: '/' :: rest => trimEnd ('/' :: rest)
  | cs => cs

/-- The path without its last part, as `trimEnd` leaves it; a path without parts has no parent. -/
def parent? (p : Path) : Option Path :=
  match trimEnd p.text.toList.reverse with
  | [] => none
  | ['/'] => none
  | cs => some ⟨String.ofList (trimEnd (cs.dropWhile (· != '/'))).reverse⟩

/-- A path and all the paths above it by `parent?`, nearest first. -/
def selfAndParents (p : Path) : List Path :=
  match p.parent? with
  | none => [p]
  | some q => if q.text.length < p.text.length then p :: q.selfAndParents else [p]
termination_by p.text.length

/-- The texts between the slashes. -/
def parts (p : Path) : List String := (p.text.toList.splitOn '/').map String.ofList

end Path

end StackTrace
