import StackTrace.Text.Printable

/-!
# Quoted text

Two ways to write a string between double quotes.  Descriptions for people escape whatever would not
show, by name if it has a short one and by its code point in braces otherwise.  Data escapes only
what the format requires: the quote, the backslash, and control characters below the space.
-/

namespace StackTrace.Text

/-- The hexadecimal digits of a number, without leading zeros. -/
def hexDigits (n : Nat) : String := String.ofList (Nat.toDigits 16 n)

/-- A character inside a described string. -/
def describedChar (c : Char) : String :=
  match c with
  | '\x00' => "\\0"
  | '\t' => "\\t"
  | '\n' => "\\n"
  | '\r' => "\\r"
  | '"' => "\\\""
  | '\\' => "\\\\"
  | c => if isShown c then c.toString else "\\u\x7b" ++ hexDigits c.toNat ++ "\x7d"

/-- A string as descriptions show it, character by character as `describedChar`. -/
def described (s : String) : String :=
  "\"" ++ String.join (s.toList.map describedChar) ++ "\""

/-- A character inside a string of data. -/
def dataChar (c : Char) : String :=
  match c with
  | '\x08' => "\\b"
  | '\t' => "\\t"
  | '\n' => "\\n"
  | '\x0c' => "\\f"
  | '\r' => "\\r"
  | '"' => "\\\""
  | '\\' => "\\\\"
  | c =>
    if c.toNat < 16 then "\\u000" ++ hexDigits c.toNat
    else if c.toNat < 32 then "\\u00" ++ hexDigits c.toNat
    else c.toString

/-- A string as data, character by character as `dataChar`. -/
def data (s : String) : String :=
  "\"" ++ String.join (s.toList.map dataChar) ++ "\""

end StackTrace.Text
