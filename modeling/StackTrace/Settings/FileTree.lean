import StackTrace.Settings.Error
import StackTrace.Settings.Path

/-!
# File trees

A tree of directories and files without links.  A path is followed part by part from the top: a dot
or an empty part stays, two dots go up, and a name goes down.  Every step needs that the place it
starts from is a directory, so a path with a slash at its end does not lead to a file.

A name has up to 255 bytes and a path up to 4095.  A longer path, or one with a zero byte, is refused
before it is followed; a longer name is refused where it stands, by the directory it is looked up in.
-/

namespace StackTrace

/-- What lies at a place of a file tree. -/
inductive FileEntry where
  | directory
  | file (content : ByteArray)

/-- A file tree: what lies at each place below the top.  A place is a list of names, the last one
    first. -/
structure FileTree where
  entries : List (List String × FileEntry)

namespace FileTree

/-- A top directory with nothing in it. -/
def empty : FileTree := ⟨[]⟩

/-- What lies at a place.  The top is a directory. -/
def at? (t : FileTree) : List String → Option FileEntry
  | [] => some .directory
  | place => t.entries.lookup place

/-- The most bytes that a name may have. -/
def maxNameBytes : Nat := 255

/-- The most bytes that a path may have. -/
def maxPathBytes : Nat := 4095

/-- The place that a part of a path leads to. -/
def step (place : List String) (part : String) : List String :=
  if part = "" ∨ part = "." then place
  else if part = ".." then place.tail
  else part :: place

/-- Follows the parts of a path from a place, each by `step`. -/
def follow (t : FileTree) (place : List String) : List String →
    Except ReadError (List String × FileEntry)
  | [] =>
    match t.at? place with
    | none => .error .notFound
    | some entry => .ok (place, entry)
  | part :: rest =>
    match t.at? place with
    | none => .error .notFound
    | some (.file _) => .error .notADirectory
    | some .directory =>
      if maxNameBytes < part.utf8ByteSize then .error .nameTooLong
      else t.follow (step place part) rest

/-- What a path leads to, by `follow` from the top. -/
def lookup (t : FileTree) (p : Path) : Except ReadError FileEntry :=
  if p.text.contains (Char.ofNat 0) then .error .zeroByteInName
  else if p.text.isEmpty then .error .notFound
  else if maxPathBytes < p.text.utf8ByteSize then .error .nameTooLong
  else (t.follow [] p.parts).map Prod.snd

/-- Whether `lookup` finds anything at a path. -/
def pathExists (t : FileTree) (p : Path) : Bool := (t.lookup p).toBool

/-- The text of the file that `lookup` finds. -/
def read (t : FileTree) (p : Path) : Except ReadError String :=
  match t.lookup p with
  | .error e => .error e
  | .ok .directory => .error .isADirectory
  | .ok (.file content) =>
    match String.fromUTF8? content with
    | none => .error .invalidUtf8
    | some text => .ok text

/-- Makes a `directory` at a place where there is nothing. -/
def makeDirectory (t : FileTree) (place : List String) : FileTree :=
  match t.at? place with
  | some _ => t
  | none => ⟨(place, .directory) :: t.entries⟩

/-- Follows the parts of a path from a place as `follow` does and makes the directories that are missing
    on the way; one that two dots lead out of again is made as well. -/
def makeDirectories (t : FileTree) (place : List String) : List String → FileTree
  | [] => t
  | part :: rest =>
    let place := step place part
    (t.makeDirectory place).makeDirectories place rest

/-- Makes a directory and those on the way to it, with `makeDirectories`. -/
def addDirectory (t : FileTree) (p : Path) : FileTree := t.makeDirectories [] p.parts

/-- Writes a file and makes the directories on the way to it, with `makeDirectories`. -/
def addFile (t : FileTree) (p : Path) (content : ByteArray) : FileTree :=
  let place := p.parts.foldl step []
  let t := t.makeDirectories [] p.parts.dropLast
  ⟨(place, .file content) :: t.entries.filter (·.1 != place)⟩

end FileTree

end StackTrace
