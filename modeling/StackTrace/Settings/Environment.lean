import StackTrace.Settings.Section

/-!
# Settings from the environment

Four environment variables override the section on trace capture.  Two are flags: they are on if
their text is `true`, `1`, `yes` or `on` in letters of either case, and off otherwise.  Two are
counts, which may have blanks around them and a plus sign.  A variable whose bytes are not UTF-8 is
taken as not set.
-/

namespace StackTrace

/-- Whether a character counts as blank around a count: the Unicode property `White_Space`. -/
def isBlank (c : Char) : Bool :=
  let n := c.toNat
  (9 ≤ n && n ≤ 13) || n == 0x20 || n == 0x85 || n == 0xa0 || n == 0x1680 ||
    (0x2000 ≤ n && n ≤ 0x200a) || n == 0x2028 || n == 0x2029 || n == 0x202f || n == 0x205f ||
    n == 0x3000

/-- A text without the blanks at its ends. -/
def trimBlanks (cs : List Char) : List Char :=
  ((cs.dropWhile isBlank).reverse.dropWhile isBlank).reverse

/-- Reads on from `value` digit by digit, up to the largest word. -/
def countFrom (value : Nat) : List Char → Except CountError Nat
  | [] => .ok value
  | c :: rest =>
    if c.isDigit then
      let value := value * 10 + (c.toNat - '0'.toNat)
      if value > 18446744073709551615 then .error .tooLarge else countFrom value rest
    else .error .invalidDigit

/-- Reads a count: the digits that `countFrom` takes, which may have a plus sign before them, after
    `trimBlanks`. -/
def parseCount (text : String) : Except CountError Nat :=
  match trimBlanks text.toList with
  | [] => .error .empty
  | ['+'] => .error .invalidDigit
  | '+' :: digits => countFrom 0 digits
  | digits => countFrom 0 digits

/-- Reads a flag: `true`, `1`, `yes` and `on` in any case are set, all else is not. -/
def parseFlag (text : String) : Bool :=
  ["true", "1", "yes", "on"].contains (text.map Char.toLower)

/-- The environment: the bytes of each variable that is set. -/
structure Environment where
  bindings : List (String × ByteArray)

namespace Environment

/-- The text of a variable, if it is set to one. -/
def text? (e : Environment) (name : String) : Option String :=
  (e.bindings.lookup name).bind String.fromUTF8?

/-- The count that `parseCount` reads in a variable, if the variable is set. -/
def count? (e : Environment) (name : String) : Except InvalidValue (Option Nat) :=
  match e.text? name with
  | none => .ok none
  | some text =>
    match parseCount text with
    | .ok n => .ok (some n)
    | .error why => .error (.notACount name text why)

/-- The `BacktraceSection` that the environment amounts to, if it sets anything. -/
def backtrace? (e : Environment) : Except InvalidValue (Option BacktraceSection) := do
  let enabled := (e.text? "KESTREL_STACK_TRACES").map parseFlag
  let maxDepth ← e.count? "KESTREL_MAX_STACK_TRACE_DEPTH"
  let showHiddenFrames := (e.text? "KESTREL_SHOW_HIDDEN_FRAMES").map parseFlag
  let chunkSize ← e.count? "KESTREL_TRACE_CHUNK_SIZE"
  chunkSize.forM checkChunkSize
  let s : BacktraceSection := { enabled, maxDepth, chunkSize, showHiddenFrames }
  return if s = {} then none else some s

/-- Lays what `backtrace?` gives over a project layer. -/
def override (e : Environment) (project : Layer) : Except InvalidValue Layer := do
  match ← e.backtrace? with
  | none => return project
  | some s => return project.modifyBacktrace (·.merge s)

end Environment

end StackTrace
