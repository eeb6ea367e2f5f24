import StackTrace.Machine.Basic

/-!
# Descriptions

One-line descriptions of classes, methods, code, chunks and throwables, for people who look for a
fault.  A description names the kind of thing and lists what matters of it in braces.
-/

namespace StackTrace.Describe

/-- A description with its fields, in the order given. -/
def fields (kind : String) (fs : List (String × String)) : String :=
  kind ++ " \x7b " ++ String.intercalate ", " (fs.map fun (k, v) => k ++ ": " ++ v) ++ " \x7d"

/-- A value that may be absent. -/
def optional : Option String → String
  | none => "None"
  | some text => "Some(" ++ text ++ ")"

/-- A truth value. -/
def flag (b : Bool) : String := if b then "true" else "false"

/-- The flags of a method. -/
def methodFlags (f : MethodFlags) : String :=
  fields "MethodFlags"
    [("is_native", flag f.native), ("is_hidden", flag f.hidden), ("is_static", flag f.static)]

/-- A method; `name` is its external name. -/
def method (name : String) (m : Method) : String :=
  fields "Method"
    [ ("name", Text.described name), ("ordinal", toString m.ordinal),
      ("generation", toString m.generation), ("flags", methodFlags m.flags) ]

/-- A class. -/
def cls (c : Class) : String :=
  fields "Klass" [("name", Text.described c.name.text), ("generation", toString c.generation)]

/-- The class object of a class. -/
def classObject (c : Class) : String := "Mirror(" ++ c.externalName ++ ")"

/-- Compiled code; `name` is the external name of its method. -/
def code (name : String) (c : CompiledCode) : String :=
  fields "CompiledMethod"
    [ ("method", Text.described name), ("native_wrapper", flag c.nativeWrapper),
      ("pc_descs", toString c.pcDescs.length) ]

/-- The chunk that a store starts in, with its `fields`. -/
def headChunk (s : Store) : Option String :=
  s.chunks[0]?.map fun c =>
    fields "FrameChunk"
      [ ("capacity", toString c.capacity), ("occupied", toString c.frames.size),
        ("next", optional (c.next.map fun id => "ChunkId(" ++ toString id ++ ")")),
        ("hidden_top_frame", flag s.hiddenTop.isSome) ]

/-- Conditions as a nested description, each the cause of the one before. -/
def chain (p : Program) : List Condition → Option String
  | [] => none
  | c :: causes =>
    some (fields "Throwable"
      [ ("class", Text.described (((p.get? c.cls).map Class.externalName).getD "")),
        ("message", optional (c.message.map Text.described)),
        ("depth", toString c.depth), ("cause", optional (chain p causes)) ])

/-- A throwable. -/
def throwable (p : Program) (t : Throwable) : String := (chain p t.chain).getD ""

end StackTrace.Describe
