/-!
# Errors of the settings
-/

namespace StackTrace

/-- Why a text is not a count. -/
inductive CountError where
  | empty
  | invalidDigit
  | tooLarge
  deriving DecidableEq, Repr

/-- The wording of a failed count. -/
def CountError.message : CountError → String
  | empty => "cannot parse integer from empty string"
  | invalidDigit => "invalid digit found in string"
  | tooLarge => "number too large to fit in target type"

/-- Why a file could not be read. -/
inductive ReadError where
  | notFound
  | notADirectory
  | isADirectory
  | nameTooLong
  | zeroByteInName
  | invalidUtf8
  deriving DecidableEq, Repr

/-- The wording of a failed read. -/
def ReadError.message : ReadError → String
  | notFound => "No such file or directory (os error 2)"
  | notADirectory => "Not a directory (os error 20)"
  | isADirectory => "Is a directory (os error 21)"
  | nameTooLong => "File name too long (os error 36)"
  | zeroByteInName => "file name contained an unexpected NUL byte"
  | invalidUtf8 => "stream did not contain valid UTF-8"

/-- A setting whose value is out of range or no value at all. -/
inductive InvalidValue where
  | chunkSize (value : Nat)
  | heapLimit
  /-- The environment variable `variable` is set to `text`, which is not a count. -/
  | notACount (variableName text : String) (why : CountError)
  deriving DecidableEq, Repr

namespace InvalidValue

/-- The name of the setting. -/
def field : InvalidValue → String
  | chunkSize _ => "backtrace.chunk_size"
  | heapLimit => "heap.limit_bytes"
  | notACount variableName _ _ => variableName

/-- What is wrong with its value. -/
def reason : InvalidValue → String
  | chunkSize value => s!"must be between 1 and 65535, got {value}"
  | heapLimit => "must be greater than zero"
  | notACount _ text why => s!"expected a non-negative integer, got '{text}' ({why.message})"

end InvalidValue

/-- Why settings could not be loaded. -/
inductive ConfigError where
  | notFound (path : String)
  | unreadable (e : ReadError)
  | invalidSyntax (path : String)
  | invalidValue (e : InvalidValue)
  | homeNotFound
  deriving DecidableEq, Repr

/-- The wording of an error. -/
def ConfigError.message : ConfigError → String
  | notFound path => s!"Configuration file not found: {path}"
  | unreadable e => s!"Failed to read configuration file: {e.message}"
  | invalidSyntax path => s!"Invalid TOML syntax in {path}"
  | invalidValue e => s!"Invalid value for '{e.field}': {e.reason}"
  | homeNotFound => "Home directory not found"

end StackTrace
