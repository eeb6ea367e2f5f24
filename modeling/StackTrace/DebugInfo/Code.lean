import StackTrace.DebugInfo.Unsigned5
import StackTrace.Program.Method

/-!
# Compiled code and its scope records

Code compiled from one method may run others inlined into it.  For each call site a chain of *scope
records* says which methods are active there and where: a record is the offset of the record of the
caller, an index into a table of methods, and a bytecode index.  Offset 0 stands for no caller, so
the records start behind one byte of padding.  A *pc descriptor* leads from a code offset to the
record of the innermost method.

`CompiledCode.ofCallSites` is the code of a method with given call sites, `CompiledCode.scopeAt` reads
one record back, and `CompiledCode.scopesFrom` follows a chain to its physical method.
-/

namespace StackTrace

/-- Leads from a code offset to the record of the innermost scope there. -/
structure PcDesc where
  pc : Nat
  scopeOffset : Nat
  deriving DecidableEq, Repr

/-- The descriptor of exactly the code offset `pc` among descriptors by increasing offset, found by
    halving what is left of them. -/
def PcDesc.search (pc : Nat) (ds : List PcDesc) : Option PcDesc :=
  match h : ds.drop (ds.length / 2) with
  | [] => none
  | middle :: above =>
    if middle.pc = pc then some middle
    else if pc < middle.pc then search pc (ds.take (ds.length / 2))
    else search pc above
termination_by ds.length
decreasing_by
  all_goals
    have hlength := congrArg List.length h
    simp only [List.length_drop, List.length_take, List.length_cons] at hlength ⊢
    omega

/-- A decoded scope record. -/
structure Scope where
  method : Method
  bci : Int
  /-- The offset of the record of the caller; 0 if this is the physical method. -/
  sender : Nat
  deriving DecidableEq, Repr

/-- Whether a scope is that of the physical method, which no other was inlined around: its `sender` is
    0. -/
def Scope.isPhysical (s : Scope) : Bool := s.sender == 0

/-- Machine code of one method. -/
structure CompiledCode where
  /-- The physical method. -/
  method : Method
  /-- Whether the code only wraps a native method. -/
  nativeWrapper : Bool
  /-- The methods that scope records name by index. -/
  metadata : Array Method
  /-- One descriptor for each code offset with a call site, by increasing offset. -/
  pcDescs : List PcDesc
  /-- The scope records. -/
  scopes : Array UInt8

namespace CompiledCode

/-- The wrapper through which compiled code calls a native method, with no call sites and a
    `nativeWrapper`. -/
def wrapper (method : Method) : CompiledCode := ⟨method, true, #[], [], #[]⟩

/-- The descriptor recorded for exactly this code offset, by `PcDesc.search`. -/
def pcDescAt (c : CompiledCode) (pc : Nat) : Option PcDesc := PcDesc.search pc c.pcDescs

/-- Decodes the scope record at an offset with an `Unsigned5.Reader`. -/
def scopeAt (c : CompiledCode) (offset : Nat) : Except DebugInfo.Error Scope :=
  if offset = 0 ∨ c.scopes.size ≤ offset then .error (.badScopeOffset offset c.scopes.size)
  else
    match Unsigned5.Reader.int ⟨c.scopes, offset⟩ with
    | (.error e, _) => .error e
    | (.ok sender, r) =>
      match r.int with
      | (.error e, _) => .error e
      | (.ok index, r) =>
        match c.metadata[index.toNat]? with
        | none => .error (.badMetadataIndex index.toNat c.metadata.size)
        | some method =>
          match r.bci with
          | (.error e, _) => .error e
          | (.ok bci, _) => .ok ⟨method, bci, sender.toNat⟩

/-- The chain of `scopeAt` from the record at an offset out to the physical method, and the error that
    cut it short, if one did.  A caller is recorded before what it calls, so offsets decrease. -/
def scopesFrom (c : CompiledCode) (offset : Nat) : List Scope × Option DebugInfo.Error :=
  match c.scopeAt offset with
  | .error e => ([], some e)
  | .ok s =>
    if s.isPhysical then ([s], none)
    else if s.sender < offset then
      let (outer, e) := c.scopesFrom s.sender
      (s :: outer, e)
    else ([s], none)
termination_by offset

end CompiledCode

/-- A call site: a code offset, and the methods active there, from the physical method inward, each with
    the index of its pending call. -/
structure CallSite where
  pc : Nat
  active : List (Method × Int)

/-- The scopes to record for a call site in the code of `method`.  An empty list of active methods
    stands for the physical method at index 0. -/
def CallSite.scopes (site : CallSite) (method : Method) : List (Method × Int) :=
  if site.active.isEmpty then [(method, 0)] else site.active

/-- Code under construction. -/
structure CodeBuilder where
  method : Method
  metadata : Array Method
  /-- The descriptors recorded so far, latest first. -/
  pcDescs : List PcDesc
  scopes : Unsigned5.Writer

namespace CodeBuilder

/-- No call sites yet, only the byte of padding, so that no record is at offset 0. -/
def ofMethod (method : Method) : CodeBuilder := ⟨method, #[], [], Unsigned5.Writer.empty.byte 0⟩

/-- The index of a method in `metadata`, which the method is added to on first use. -/
def metadataIndex (metadata : Array Method) (m : Method) : Nat × Array Method :=
  match metadata.findIdx? (· == m) with
  | some index => (index, metadata)
  | none => (metadata.size, metadata.push m)

/-- Appends the record of one scope, called from the scope at `sender`; returns its offset. -/
def scope (b : CodeBuilder) (sender : Nat) (m : Method) (bci : Int) : Nat × CodeBuilder :=
  let ⟨method, metadata, pcDescs, scopes⟩ := b
  let offset := scopes.position
  let (index, metadata) := metadataIndex metadata m
  let scopes := ((scopes.int sender.toUInt32).int index.toUInt32).bci bci
  (offset, ⟨method, metadata, pcDescs, scopes⟩)

/-- Appends the records of nested scopes, outermost first, to a chain that ends at `sender`; returns the
    offset of the innermost. -/
def scopeChain (b : CodeBuilder) (sender : Nat) : List (Method × Int) → Nat × CodeBuilder
  | [] => (sender, b)
  | (m, bci) :: inner =>
    let (offset, b) := b.scope sender m bci
    b.scopeChain offset inner

/-- Records a call site: its `scopeChain`, and a descriptor for the innermost scope. -/
def callSite (b : CodeBuilder) (site : CallSite) : CodeBuilder :=
  let (innermost, b) := b.scopeChain 0 (site.scopes b.method)
  { b with pcDescs := ⟨site.pc, innermost⟩ :: b.pcDescs }

/-- Drops each descriptor whose `pc` is that of the one before it. -/
def dropRepeated : List PcDesc → List PcDesc
  | [] => []
  | [d] => [d]
  | d :: e :: rest =>
    if d.pc = e.pc then dropRepeated (d :: rest) else d :: dropRepeated (e :: rest)
termination_by ds => ds.length

/-- The finished code.  Of several call sites at one code offset the first recorded counts, by
    `dropRepeated`. -/
def build (b : CodeBuilder) : CompiledCode where
  method := b.method
  nativeWrapper := false
  metadata := b.metadata
  pcDescs := dropRepeated (b.pcDescs.reverse.mergeSort fun d e => d.pc ≤ e.pc)
  scopes := b.scopes.bytes

end CodeBuilder

/-- The code of a method in which these call sites were recorded with `CodeBuilder.callSite`, one after
    the other. -/
def CompiledCode.ofCallSites (method : Method) (sites : List CallSite) : CompiledCode :=
  (sites.foldl CodeBuilder.callSite (CodeBuilder.ofMethod method)).build

end StackTrace
