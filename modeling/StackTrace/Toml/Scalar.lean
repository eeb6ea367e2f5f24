import StackTrace.Toml.Value

/-!
# Bare TOML scalars

Numbers, dates, times and booleans are written without quotes.  Such a scalar ends at the first
character that can be in none of them, and its whole text has to be one.

Underscores may stand between digits.  A decimal number has no leading zeros.  An integer has 64
bits; a float must not be too large for one of 64 bits.
-/

namespace StackTrace.Toml

/-- Whether a character can be part of a bare scalar. -/
def isScalarChar (c : Char) : Bool :=
  c.isAlphanum || c == '_' || c == '+' || c == '-' || c == '.' || c == ':'

/-- The value of a digit in any base up to sixteen. -/
def digitValue (c : Char) : Option Nat :=
  if c.isDigit then some (c.toNat - '0'.toNat)
  else if 'a' ≤ c ∧ c ≤ 'f' then some (c.toNat - 'a'.toNat + 10)
  else if 'A' ≤ c ∧ c ≤ 'F' then some (c.toNat - 'A'.toNat + 10)
  else none

/-- Whether a character is a digit in a base: its `digitValue` is below it. -/
def isDigitOf (base : Nat) (c : Char) : Bool := (digitValue c).any (· < base)

/-- The digits of a text of digits and underscores that begins with a digit and has a digit behind
    each underscore. -/
def digits? (base : Nat) : List Char → Option (List Nat)
  | [] => none
  | [c] => if isDigitOf base c then (digitValue c).map ([·]) else none
  | c :: '_' :: rest => do
    guard (isDigitOf base c)
    return (← digitValue c) :: (← digits? base rest)
  | c :: rest => do
    guard (isDigitOf base c)
    return (← digitValue c) :: (← digits? base rest)

/-- The number that digits stand for. -/
def ofDigits (base : Nat) (ds : List Nat) : Nat := ds.foldl (fun n d => n * base + d) 0

/-- The `digits?` of a decimal number without leading zeros. -/
def decimal? (cs : List Char) : Option (List Nat) :=
  match digits? 10 cs with
  | some (0 :: _ :: _) => none
  | ds => ds

/-- Splits a sign off; true for minus. -/
def sign : List Char → Bool × List Char
  | '-' :: rest => (true, rest)
  | '+' :: rest => (false, rest)
  | cs => (false, cs)

/-- A value in the range of 64 bits. -/
def int64? (n : Int) : Option Int :=
  if -9223372036854775808 ≤ n ∧ n ≤ 9223372036854775807 then some n else none

/-- Reads an integer in the range of `int64?`. -/
def integer? : List Char → Option Int
  | '0' :: 'x' :: cs => do int64? (ofDigits 16 (← digits? 16 cs))
  | '0' :: 'o' :: cs => do int64? (ofDigits 8 (← digits? 8 cs))
  | '0' :: 'b' :: cs => do int64? (ofDigits 2 (← digits? 2 cs))
  | cs => do
    let (negative, cs) := sign cs
    let n : Int := ofDigits 10 (← decimal? cs)
    int64? (if negative then -n else n)

/-- Reads an exponent with its letter. -/
def exponent? : List Char → Option Int
  | c :: cs => do
    guard (c == 'e' || c == 'E')
    let (negative, cs) := sign cs
    let n : Int := ofDigits 10 (← digits? 10 cs)
    return if negative then -n else n
  | [] => none

/-- Whether `digits` times ten to the power `exponent` is rounded to a 64-bit float, not to
    infinity.  The bound is half a unit above the largest one. -/
def isFiniteFloat (digits : Nat) (exponent : Int) : Bool :=
  let length : Int := (Nat.toDigits 10 digits).length
  if digits = 0 ∨ length + exponent < 300 then true
  else if length + exponent > 320 then false
  else
    let bound : Nat := Nat.pow 2 1024 - Nat.pow 2 970
    if 0 ≤ exponent then digits * Nat.pow 10 exponent.toNat < bound
    else digits < bound * Nat.pow 10 (-exponent).toNat

/-- Whether a text is a float. -/
def isFloat (text : List Char) : Bool :=
  let (negative, cs) := sign text
  if cs = "inf".toList ∨ cs = "nan".toList then true
  else
    let isPart (c : Char) : Bool := c.isDigit || c == '_'
    let number : Option (Nat × Int) := do
      let whole ← decimal? (cs.takeWhile isPart)
      match cs.dropWhile isPart with
      | '.' :: cs =>
        let fraction ← digits? 10 (cs.takeWhile isPart)
        let e ← match cs.dropWhile isPart with
          | [] => some 0
          | cs => exponent? cs
        return (ofDigits 10 (whole ++ fraction), e - fraction.length)
      | cs => return (ofDigits 10 whole, ← exponent? cs)
    match number with
    | none => false
    | some (digits, e) => negative || isFiniteFloat digits e

/-- Reads exactly `count` digits off the front. -/
def fixedDigits? (count : Nat) (cs : List Char) : Option (Nat × List Char) := do
  let front := cs.take count
  guard (front.length = count ∧ front.all Char.isDigit)
  return (ofDigits 10 (← front.mapM digitValue), cs.drop count)

/-- Takes one expected character off the front. -/
def expect? (c : Char) : List Char → Option (List Char)
  | d :: rest => if d = c then some rest else none
  | [] => none

/-- The number of days of a month. -/
def daysIn (year month : Nat) : Nat :=
  if month = 2 then
    if year % 4 = 0 ∧ (year % 100 ≠ 0 ∨ year % 400 = 0) then 29 else 28
  else if month = 4 ∨ month = 6 ∨ month = 9 ∨ month = 11 then 30
  else 31

/-- Reads a date off the front. -/
def date? (cs : List Char) : Option (List Char) := do
  let (year, cs) ← fixedDigits? 4 cs
  let (month, cs) ← fixedDigits? 2 (← expect? '-' cs)
  let (day, cs) ← fixedDigits? 2 (← expect? '-' cs)
  guard (1 ≤ month ∧ month ≤ 12 ∧ 1 ≤ day ∧ day ≤ daysIn year month)
  return cs

/-- Reads a time of day off the front, with a fraction of the second if one follows. -/
def time? (cs : List Char) : Option (List Char) := do
  let (hour, cs) ← fixedDigits? 2 cs
  let (minute, cs) ← fixedDigits? 2 (← expect? ':' cs)
  let (second, cs) ← fixedDigits? 2 (← expect? ':' cs)
  guard (hour ≤ 23 ∧ minute ≤ 59 ∧ second ≤ 60)
  match cs with
  | '.' :: cs =>
    guard ((cs.takeWhile Char.isDigit).length > 0)
    return cs.dropWhile Char.isDigit
  | cs => return cs

/-- Whether a text is empty or an offset from universal time. -/
def isOffset : List Char → Bool
  | [] => true
  | ['Z'] | ['z'] => true
  | c :: cs =>
    let offset : Option (List Char) := do
      guard (c == '+' || c == '-')
      let (hour, cs) ← fixedDigits? 2 cs
      let (minute, cs) ← fixedDigits? 2 (← expect? ':' cs)
      guard (hour ≤ 23 ∧ minute ≤ 59)
      return cs
    offset == some []

/-- Whether a text is a `time?` of day with an optional offset. -/
def isOffsetTime (cs : List Char) : Bool := (time? cs).any isOffset

/-- Whether a text is a date, a time, or both with `T` between them. -/
def isDate (cs : List Char) : Bool :=
  match date? cs with
  | some [] => true
  | some (c :: rest) => (c == 'T' || c == 't') && isOffsetTime rest
  | none => time? cs == some []

/-- Reads a bare scalar. -/
def scalar? (cs : List Char) : Option Value :=
  if cs = "true".toList then some (.boolean true)
  else if cs = "false".toList then some (.boolean false)
  else
    match integer? cs with
    | some n => some (.integer n)
    | none =>
      if isFloat cs then some (.float (String.ofList cs))
      else if isDate cs then some (.date (String.ofList cs))
      else none

/-- Takes a bare scalar off the front and reads it with `scalar?`.  A date may be joined to a time
    behind it by one space. -/
def takeScalar (cs : List Char) : Option (Value × List Char) := do
  let text := cs.takeWhile isScalarChar
  let rest := cs.dropWhile isScalarChar
  let time := (rest.drop 1).takeWhile isScalarChar
  if date? text = some [] ∧ rest.head? = some ' ' ∧ time ≠ [] then
    guard (isOffsetTime time)
    return (.date (String.ofList (text ++ ' ' :: time)), (rest.drop 1).dropWhile isScalarChar)
  else return (← scalar? text, rest)

end StackTrace.Toml
