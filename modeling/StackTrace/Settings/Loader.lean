import StackTrace.Settings.Environment
import StackTrace.Settings.FileTree
import StackTrace.Settings.Resolved
import StackTrace.Toml.Document

/-!
# Loading settings

Settings come from two files and the environment.  The project file is `kestrel.toml` in the
directory where the search starts, or in the nearest one above it that has one; the path of the
directory is taken as a text.  The global file belongs to the user; if it is missing or cannot be
used, or the user has no home directory, the global layer is empty.  The environment is laid over
the project layer.

A file is either read, understood and valid, or an error says which of these it is not.
-/

namespace StackTrace

namespace Toml

/-- The flag that an optional field holds. -/
def flagField? : Option Value → Option (Option Bool)
  | none => some none
  | some (.boolean b) => some (some b)
  | some _ => none

/-- The count that an optional field holds. -/
def countField? : Option Value → Option (Option Nat)
  | none => some none
  | some (.integer n) => if 0 ≤ n then some (some n.toNat) else none
  | some _ => none

/-- The fields of a section: those of a table, whose keys have to be among `keys`, or the first
    elements of an array, which has to have one for each key. -/
def sectionFields? (keys : List String) : Value → Option (String → Option Value)
  | .table _ entries =>
    if entries.all fun (key, _) => keys.contains key then some fun key => entries.lookup key
    else none
  | .array elements =>
    if keys.length ≤ elements.length then some fun key => (keys.zip elements).lookup key else none
  | _ => none

/-- The `BacktraceSection` that a value stands for. -/
def backtraceSection? (v : Value) : Option BacktraceSection := do
  let keys := ["enabled", "max_depth", "chunk_size", "show_hidden_frames", "preallocated_errors"]
  let field ← sectionFields? keys v
  return {
    enabled := ← flagField? (field "enabled")
    maxDepth := ← countField? (field "max_depth")
    chunkSize := ← countField? (field "chunk_size")
    showHiddenFrames := ← flagField? (field "show_hidden_frames")
    preallocatedErrors := ← countField? (field "preallocated_errors") }

/-- The `HeapSection` that a value stands for. -/
def heapSection? (v : Value) : Option HeapSection := do
  let field ← sectionFields? ["limit_bytes"] v
  return { limitBytes := ← countField? (field "limit_bytes") }

/-- The `Layer` that a document stands for; it may hold nothing else. -/
def layer? (entries : Entries) : Option Layer := do
  guard (entries.all fun (key, _) => key == "backtrace" || key == "heap")
  let backtrace ← match entries.lookup "backtrace" with
    | none => some none
    | some v => (backtraceSection? v).map some
  let heap ← match entries.lookup "heap" with
    | none => some none
    | some v => (heapSection? v).map some
  return { backtrace, heap }

end Toml

/-- The layer that a text stands for, by `Toml.parse?` and `Toml.layer?`. -/
def Layer.parse? (text : String) : Option Layer := (Toml.parse? text).bind Toml.layer?

/-- The layer in a file: `FileTree.read`, `Layer.parse?`, and the checks of `Layer.validate`. -/
def Layer.load (t : FileTree) (p : Path) : Except ConfigError Layer :=
  match t.read p with
  | .error .notFound => .error (.notFound p.text)
  | .error e => .error (.unreadable e)
  | .ok text =>
    match Layer.parse? text with
    | none => .error (.invalidSyntax p.text)
    | some layer =>
      match layer.validate with
      | .error e => .error (.invalidValue e)
      | .ok () => .ok layer

/-- The name of a project file. -/
def projectFileName : String := "kestrel.toml"

/-- The global file of the user whose home directory this is; a user may have none. -/
def globalPath (home : Option Path) : Except ConfigError Path :=
  match home with
  | none => .error .homeNotFound
  | some home => .ok ((home.join ".kestrel").join "config.toml")

/-- A loader remembers where the global file is once it has found out. -/
structure Loader where
  globalFile : Option Path

namespace Loader

/-- A loader that finds the global file by the home directory. -/
def new : Loader := ⟨none⟩

/-- The nearest directory with a project file, from `start` upwards. -/
def projectRoot? (t : FileTree) (start : Path) : Option Path :=
  start.selfAndParents.find? fun p => t.pathExists (p.join projectFileName)

/-- The project layer for a start directory, in the file that `projectRoot?` leads to, and where it was
    found. -/
def findProject (t : FileTree) (start : Path) : Except ConfigError (Option Path × Layer) :=
  match projectRoot? t start with
  | none => .ok (none, Layer.empty)
  | some root =>
    match Layer.load t (root.join projectFileName) with
    | .error e => .error e
    | .ok layer => .ok (some root, layer)

/-- The place of the global file by `globalPath`, which the loader then remembers. -/
def locateGlobal (l : Loader) (home : Option Path) : Except ConfigError Path × Loader :=
  match l.globalFile with
  | some path => (.ok path, l)
  | none =>
    match globalPath home with
    | .error e => (.error e, l)
    | .ok path => (.ok path, ⟨some path⟩)

/-- The global layer, empty where `locateGlobal` or `Layer.load` fails. -/
def loadGlobal (l : Loader) (t : FileTree) (home : Option Path) : Layer × Loader :=
  match l.locateGlobal home with
  | (.error _, l) => (Layer.empty, l)
  | (.ok path, l) =>
    if t.pathExists path then ((Layer.load t path).toOption.getD Layer.empty, l)
    else (Layer.empty, l)

/-- Completes settings whose project layer has been read: the `Environment.override` of it, and the
    layer of `loadGlobal`. -/
def complete (l : Loader) (t : FileTree) (home : Option Path) (env : Environment) (root : Option Path)
    (project : Layer) : Except ConfigError Config × Loader :=
  let (global, l) := l.loadGlobal t home
  match env.override project with
  | .error e => (.error (.invalidValue e), l)
  | .ok project => (.ok ⟨project, global, root.map (·.text)⟩, l)

/-- Loads the settings for a directory, with the project file that `findProject` comes to. -/
def loadDirectory (l : Loader) (t : FileTree) (home : Option Path) (env : Environment) (start : Path) :
    Except ConfigError Config × Loader :=
  match findProject t start with
  | .error e => (.error e, l)
  | .ok (root, project) => l.complete t home env root project

/-- Loads the settings with a given project file, by `Layer.load` without a search. -/
def loadFile (l : Loader) (t : FileTree) (home : Option Path) (env : Environment) (file : Path) :
    Except ConfigError Config × Loader :=
  match Layer.load t file with
  | .error e => (.error e, l)
  | .ok project => l.complete t home env file.parent? project

end Loader

end StackTrace
