import StackTrace.Location
import StackTrace.Program.Liveness
import StackTrace.Text.Quoted
import StackTrace.Trace.Store

/-!
# Stack trace elements

An element is a frame made ready to be shown.  It is found anew each time: the stored ordinal and
version are looked up in the class as it is then.  If they still name a method of that version, the
element is live and takes name and line from the method; the source file is known only while the
version is in force.  Otherwise the frame counts as redefined, keeps its stored name, and has neither
file nor line.
-/

namespace StackTrace

/-- Whether the code of a frame could still be found. -/
inductive FrameStatus where
  | live
  /-- The version of the class has been replaced or dropped. -/
  | redefined
  deriving DecidableEq, Repr

/-- A frame as it is shown. -/
structure StackTraceElement where
  declaringClass : String := ""
  classLoaderName : Option String := none
  moduleName : Option String := none
  moduleVersion : Option String := none
  methodName : String := ""
  fileName : Option String := none
  lineNumber : Int := unknownLine
  status : FrameStatus := .live
  deriving DecidableEq, Repr

namespace StackTraceElement

/-- The element of a frame that was recorded in class `c`. -/
def materialize (c : Class) (ordinal version : Nat) (bci : Int) (name : String) :
    StackTraceElement :=
  let shared : StackTraceElement :=
    { declaringClass := c.externalName
      classLoaderName := c.loader.map (·.text)
      moduleName := c.inModule.map (·.name.text)
      moduleVersion := c.inModule.bind fun m => m.version.map (·.text) }
  match (c.methodWithOrdinal ordinal version).filter (versionMatches ·.generation version) with
  | some m =>
    { shared with
      methodName := m.name.text
      fileName := (c.sourceFileFor version).map (·.text)
      lineNumber := m.lineNumber bci
      status := .live }
  | none =>
    { shared with methodName := name, fileName := none, lineNumber := unknownLine,
                  status := .redefined }

/-- The element of a method as it runs now, by `materialize`, unless its class is no longer `alive`. -/
def ofMethod (p : Program) (alive : ClassId → Bool) (m : Method) (bci : Int) :
    Option StackTraceElement :=
  (p.holder alive m).map fun c =>
    materialize c m.ordinal (Location.versionOf m.generation) bci m.name.text

/-- The element of a stored frame, by `materialize` from what the frame recorded. -/
def ofFrame (p : Program) (f : StoredFrame) : StackTraceElement :=
  match p.get? f.holder with
  | none => {}
  | some c => materialize c f.ordinal f.location.version f.location.bci f.name.text

/-- Whether the element is that of a native method: `live`, with `nativeLine` for its line. -/
def isNative (e : StackTraceElement) : Bool :=
  e.status == .live && e.lineNumber == nativeLine

/-- Where the code of an element is, as far as that is known. -/
def place (e : StackTraceElement) : String :=
  if e.status = .redefined then "Redefined"
  else if e.lineNumber = nativeLine then "Native Method"
  else
    match e.fileName with
    | none => "Unknown Source"
    | some file => if e.lineNumber = unknownLine then file else s!"{file}:{e.lineNumber}"

/-- The module of an element as it stands before the place. -/
def moduleText (e : StackTraceElement) : String :=
  match e.moduleName, e.moduleVersion with
  | none, _ => ""
  | some name, none => name ++ "/"
  | some name, some version => name ++ "@" ++ version ++ "/"

/-- The text of an element, such as `Class.method(module@version/File:line)`. -/
def text (e : StackTraceElement) : String :=
  e.declaringClass ++ "." ++ e.methodName ++ "(" ++ e.moduleText ++ e.place ++ ")"

/-- The word for a status. -/
def statusText : FrameStatus → String
  | .live => "live"
  | .redefined => "redefined"

/-- An element as data: one field a line, in the order of the fields. -/
def dataText (e : StackTraceElement) : String :=
  let optional : Option String → String
    | none => "null"
    | some s => Text.data s
  let fields : List (String × String) :=
    [ ("declaring_class", Text.data e.declaringClass),
      ("class_loader_name", optional e.classLoaderName),
      ("module_name", optional e.moduleName),
      ("module_version", optional e.moduleVersion),
      ("method_name", Text.data e.methodName),
      ("file_name", optional e.fileName),
      ("line_number", toString e.lineNumber),
      ("status", Text.data (statusText e.status)) ]
  let lines := fields.map fun (key, value) => "  " ++ Text.data key ++ ": " ++ value
  "\x7b\n" ++ String.intercalate ",\n" lines ++ "\n\x7d"

end StackTraceElement

end StackTrace
