import StackTrace.Toml.Scalar

/-!
# TOML blanks, comments and strings

Functions that take one piece of a document off the front of a list of characters; they give what is
left, and `none` if the piece is not there or not well formed.

A line ends with a line feed, or with a carriage return and a line feed.  Apart from that, control
characters other than the tab are allowed nowhere.
-/

namespace StackTrace.Toml

/-- A space or a tab. -/
def isBlank (c : Char) : Bool := c == ' ' || c == '\t'

/-- Whether a character may stand in a comment or, unless it has a meaning there, in a string. -/
def isPlain (c : Char) : Bool := c == '\t' || (0x20 ≤ c.toNat && c.toNat != 0x7f)

/-- Skips characters that `isBlank` holds of. -/
def skipBlanks (cs : List Char) : List Char := cs.dropWhile isBlank

/-- Takes one line end. -/
def newline? : List Char → Option (List Char)
  | '\n' :: rest => some rest
  | '\r' :: '\n' :: rest => some rest
  | _ => none

/-- Skips a comment, if there is one, up to the line end. -/
def skipComment : List Char → List Char
  | '#' :: rest => rest.dropWhile isPlain
  | cs => cs

/-- Takes the rest of a line that may hold blanks and a comment. -/
def lineEnd? (cs : List Char) : Option (List Char) :=
  match skipComment (skipBlanks cs) with
  | [] => some []
  | rest => newline? rest

/-- Skips blanks, line ends and whole comments, reading at most `fuel` of them. -/
def skipLines : (fuel : Nat) → List Char → Option (List Char)
  | 0, _ => none
  | fuel + 1, cs =>
    match skipBlanks cs with
    | '#' :: rest => do skipLines fuel (← newline? (skipComment ('#' :: rest)))
    | '\n' :: rest => skipLines fuel rest
    | '\r' :: rest => do skipLines fuel (← newline? ('\r' :: rest))
    | rest => some rest

/-- The character that a backslash and one letter stand for. -/
def shortEscape? : Char → Option Char
  | 'b' => some '\x08'
  | 't' => some '\t'
  | 'n' => some '\n'
  | 'f' => some '\x0c'
  | 'r' => some '\r'
  | '"' => some '"'
  | '\\' => some '\\'
  | _ => none

/-- The character with a hexadecimal code point. -/
def codePoint? (cs : List Char) : Option Char := do
  let n := ofDigits 16 (← cs.mapM fun c => (digitValue c).filter (· < 16))
  if h : n.isValidChar then some (Char.ofNatAux n h) else none

/-- Takes the rest of an escape, behind its backslash. -/
def escape? : List Char → Option (Char × List Char)
  | 'u' :: rest => do
    guard (4 ≤ rest.length)
    return (← codePoint? (rest.take 4), rest.drop 4)
  | 'U' :: rest => do
    guard (8 ≤ rest.length)
    return (← codePoint? (rest.take 8), rest.drop 8)
  | c :: rest => do return (← shortEscape? c, rest)
  | [] => none

/-- Takes the rest of a string on one line, behind its opening quote.  `found` is its beginning,
    latest character first. -/
def quotedFrom : (fuel : Nat) → (found : List Char) → List Char → Option (String × List Char)
  | 0, _, _ => none
  | fuel + 1, found, cs =>
    match cs with
    | '"' :: rest => some (String.ofList found.reverse, rest)
    | '\\' :: rest => do
      let (c, rest) ← escape? rest
      quotedFrom fuel (c :: found) rest
    | c :: rest => if isPlain c then quotedFrom fuel (c :: found) rest else none
    | [] => none

/-- Takes a string in double quotes on one line. -/
def quoted? : List Char → Option (String × List Char)
  | '"' :: rest => quotedFrom (rest.length + 1) [] rest
  | _ => none

/-- Takes a string in single quotes on one line, which has no escapes. -/
def literal? : List Char → Option (String × List Char)
  | '\x27' :: rest =>
    let isInside (c : Char) : Bool := isPlain c && c != '\x27'
    match rest.dropWhile isInside with
    | '\x27' :: after => some (String.ofList (rest.takeWhile isInside), after)
    | _ => none
  | _ => none

/-- Takes the quotes that end a string of several lines: three, or up to two more that belong to
    the string. -/
def closing? (quote : Char) (found : List Char) (cs : List Char) :
    Option (String × List Char) :=
  let count := min 5 (cs.takeWhile (· == quote)).length
  if count < 3 then none
  else some (String.ofList (found.reverse ++ List.replicate (count - 3) quote), cs.drop count)

/-- Whether a line ends here, maybe behind blanks. -/
def endsLine (cs : List Char) : Bool := (newline? (skipBlanks cs)).isSome

/-- Skips blanks and line ends, reading at most `fuel` of them. -/
def skipSpace : (fuel : Nat) → List Char → List Char
  | 0, cs => cs
  | fuel + 1, cs =>
    match newline? (skipBlanks cs) with
    | some rest => skipSpace fuel rest
    | none => skipBlanks cs

/-- Takes the rest of a string of several lines, behind its opening quotes.  With `escapes`, a
    backslash begins an escape, and one at the end of a line joins it to the next text. -/
def linesFrom (quote : Char) (escapes : Bool) :
    (fuel : Nat) → (found : List Char) → List Char → Option (String × List Char)
  | 0, _, _ => none
  | fuel + 1, found, cs =>
    match closing? quote found cs with
    | some result => some result
    | none =>
      match newline? cs with
      | some rest => linesFrom quote escapes fuel ('\n' :: found) rest
      | none =>
        match cs with
        | [] => none
        | c :: rest =>
          if escapes && c == '\\' then
            if endsLine rest then
              linesFrom quote escapes fuel found (skipSpace rest.length rest)
            else do
              let (c, rest) ← escape? rest
              linesFrom quote escapes fuel (c :: found) rest
          else if isPlain c then linesFrom quote escapes fuel (c :: found) rest
          else none

/-- Skips a line end right behind the opening quotes. -/
def skipFirstNewline (cs : List Char) : List Char := (newline? cs).getD cs

/-- Takes a string. -/
def string? : List Char → Option (String × List Char)
  | '"' :: '"' :: '"' :: rest =>
    let rest := skipFirstNewline rest
    linesFrom '"' true (rest.length + 1) [] rest
  | '\x27' :: '\x27' :: '\x27' :: rest =>
    let rest := skipFirstNewline rest
    linesFrom '\x27' false (rest.length + 1) [] rest
  | '"' :: rest => quoted? ('"' :: rest)
  | cs => literal? cs

end StackTrace.Toml
