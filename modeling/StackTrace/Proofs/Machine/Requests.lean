import StackTrace.Machine.Classes
import StackTrace.Machine.Threads
import StackTrace.Machine.Throwables
import StackTrace.Proofs.Capture.Owners
import StackTrace.Proofs.Program.Growth

/-!
# Runs of a machine

A run starts a machine and carries out requests one after the other; a request that fails is no
reason to stop.  Requests come in two kinds.  Those about *code* define, change and unload classes,
pin them, hold methods, compile, and move stacks: they leave the memory and the traces alone.  Those
about *traces* raise throwables, capture and drop traces, and reserve memory: they leave the classes
alone.

## Key results

- `Machine.CodeRequest.sameTraces`, `Machine.TraceRequest.sameCode`: what each kind of request leaves
  as it was
- `Machine.CodeRequest.grows`: which classes a request can change
-/

namespace StackTrace.Machine

/-- A request about classes, methods, code and stacks. -/
inductive CodeRequest where
  | define (r : DefineRequest)
  | redefine (ref : ClassRef) (methods : List MethodSpec) (sourceFile : Option String)
      (purging : Bool) (times : Nat)
  | purge (ref : ClassRef)
  | unload (name : String)
  | intern (text : String)
  | pin (ref : ClassRef) (name : String)
  | unpin (name : String)
  | holdMethod (ref : MethodRef) (name : String)
  | compile (name : String) (method : MethodRef) (sites : Option (List SiteRequest))
  | push (thread : String) (frames : List (FrameRequest × Nat))
  | pop (thread : String) (times : Nat)

/-- A request about throwables, their traces, and memory. -/
inductive TraceRequest where
  | raise (name : String) (cls : ClassRef) (message cause : Option String)
  | setCause (name cause : String)
  | setMessage (name : String) (message : Option String)
  | drop (name : String)
  | fill (name thread : String) (method : Option MethodRef)
  | refill (name thread : String)
  | allocate (name : String)
  | outOfMemory (name thread : String) (message : Option String)
  | reserve (name : String) (payload : Nat)
  | box (name : String) (value : Bool)
  | free (name : String)

/-- Anything that can be asked of a machine, a `CodeRequest` or a `TraceRequest`. -/
inductive Request where
  | code (r : CodeRequest)
  | trace (r : TraceRequest)

/-- The machine after a request of `CodeRequest`, whether that succeeds or not. -/
def CodeRequest.perform (m : Machine) : CodeRequest → Machine
  | .define r => (m.define r).2
  | .redefine ref methods sourceFile purging times =>
    (m.redefine ref methods sourceFile purging times).2
  | .purge ref => (m.purge ref).2
  | .unload name => (m.unload name).2
  | .intern text => m.setProgram { m.program with symbols := (m.program.symbols.intern text).2 }
  | .pin ref name => (m.pin ref name).2
  | .unpin name => (m.unpin name).2
  | .holdMethod ref name => (m.holdMethod ref name).2
  | .compile name method sites => (m.compile name method sites).2
  | .push thread frames => (m.pushFrames thread frames).2
  | .pop thread times => (m.popFrames thread times).2.2

/-- The machine after a request of `TraceRequest`, whether that succeeds or not. -/
def TraceRequest.perform (m : Machine) : TraceRequest → Machine
  | .raise name cls message cause => (m.raise name cls message cause).2
  | .setCause name cause => (m.setCause name cause).2
  | .setMessage name message => (m.setMessage name message).2
  | .drop name => (m.dropThrowable name).2
  | .fill name thread method => (m.fill name thread method).2
  | .refill name thread => (m.refill name thread).2
  | .allocate name => (m.allocateTrace name).2
  | .outOfMemory name thread message => (m.outOfMemory name thread message).2
  | .reserve name payload => (m.reserve name payload).2
  | .box name value => (m.box name value).2
  | .free name => (m.free name).2

/-- The machine after a `Request`, whether that succeeds or not. -/
def perform (m : Machine) : Request → Machine
  | .code r => r.perform m
  | .trace r => r.perform m

/-- The machine after `Machine.perform` of some requests, in order. -/
def performAll (m : Machine) (requests : List Request) : Machine := requests.foldl perform m

/-- Starts a machine by `Universe.genesis` and carries out requests. -/
def run (config : RuntimeConfig) (requests : List Request) : Except (Failure TraceError) Machine :=
  match Universe.genesis config with
  | .error e => .error e
  | .ok u => .ok ((ofUniverse u).performAll requests)

/-- `Machine.performAll` keeps what every request keeps. -/
theorem of_performAll {P : Machine → Prop} (hstep : ∀ m r, P m → P (perform m r)) {m : Machine}
    (hm : P m) (requests : List Request) : P (m.performAll requests) := by
  induction requests generalizing m with
  | nil => exact hm
  | cons r requests ih => exact ih (hstep m r hm)

/-- `Machine.run` leads to what holds at the start and is kept by every request. -/
theorem of_run {P : Machine → Prop} {config : RuntimeConfig}
    (hstart : ∀ u, Universe.genesis config = .ok u → P (ofUniverse u))
    (hstep : ∀ m r, P m → P (perform m r)) {requests : List Request} {m : Machine}
    (h : run config requests = .ok m) : P m := by
  unfold run at h
  split at h
  · cases h
  · rename_i u hgenesis
    cases h
    exact of_performAll hstep (hstart u hgenesis) requests

/-- `Machine.run` of fixed requests can be carried out, and what it leads to be tested. -/
theorem exists_run_of_any {config : RuntimeConfig} {requests : List Request} {test : Machine → Bool}
    (h : (run config requests).toOption.any test = true) :
    ∃ m, run config requests = .ok m ∧ test m = true := by
  cases hrun : run config requests with
  | error e =>
    rw [hrun] at h
    cases h
  | ok m =>
    rw [hrun] at h
    exact ⟨m, rfl, h⟩

/-! ## Requests about code -/

/-- Memory and everything that is charged to it are the same, and so is all of the runtime but
    `Universe.program`. -/
structure SameTraces (m m' : Machine) : Prop where
  world_eq : m'.world = { m.world with program := m'.program }
  throwables_eq : m'.throwables = m.throwables
  holdings_eq : m'.holdings = m.holdings

/-- `Machine.setProgram` leaves memory and traces alone. -/
private theorem sameTraces_setProgram (m : Machine) (p : Program) : m.SameTraces (m.setProgram p) :=
  ⟨rfl, rfl, rfl⟩

namespace CodeRequest

/-- `CodeRequest.perform` leaves memory and traces alone. -/
theorem sameTraces (m : Machine) (r : CodeRequest) : m.SameTraces (r.perform m) := by
  cases r with
  | define r =>
    simp only [perform, Machine.define]
    split
    · exact ⟨rfl, rfl, rfl⟩
    · split
      · exact m.sameTraces_setProgram _
      · split
        · exact m.sameTraces_setProgram _
        · exact m.sameTraces_setProgram _
  | redefine ref methods sourceFile purging times => exact ⟨rfl, rfl, rfl⟩
  | purge ref =>
    simp only [perform, Machine.purge]
    split
    · exact ⟨rfl, rfl, rfl⟩
    · exact m.sameTraces_setProgram _
  | unload name =>
    simp only [perform, Machine.unload]
    split
    · exact m.sameTraces_setProgram _
    · split
      · exact m.sameTraces_setProgram _
      · exact m.sameTraces_setProgram _
  | intern text => exact m.sameTraces_setProgram _
  | pin ref name =>
    simp only [perform, Machine.pin]
    split
    · exact ⟨rfl, rfl, rfl⟩
    · exact ⟨rfl, rfl, rfl⟩
  | unpin name => exact ⟨rfl, rfl, rfl⟩
  | holdMethod ref name =>
    simp only [perform, Machine.holdMethod]
    split
    · exact ⟨rfl, rfl, rfl⟩
    · exact ⟨rfl, rfl, rfl⟩
  | compile name method sites =>
    simp only [perform, Machine.compile]
    split
    · exact ⟨rfl, rfl, rfl⟩
    · exact ⟨rfl, rfl, rfl⟩
  | push thread frames =>
    simp only [perform, Machine.pushFrames]
    split
    · exact ⟨rfl, rfl, rfl⟩
    · exact ⟨rfl, rfl, rfl⟩
  | pop thread times => exact ⟨rfl, rfl, rfl⟩

end CodeRequest

/-! ## What becomes of the program -/

/-- The class that a reference stands for, with the classes in `pins`. -/
def classOf? (p : Program) (pins : Table ClassId) : ClassRef → Option ClassId
  | .loaded name => p.lookup name
  | .pinned name => pins.get? name

/-- `Machine.resolveClass` finds the class that `classOf?` names. -/
theorem resolveClass_ok {m : Machine} {ref : ClassRef} {c : Class}
    (h : m.resolveClass ref = .ok c) :
    ∃ id, classOf? m.program m.pins ref = some id ∧ m.program.get? id = some c := by
  unfold resolveClass at h
  simp only at h
  split at h
  · rename_i hget
    cases h
    exact Option.bind_eq_some_iff.mp hget
  · cases h

section Redefine

variable {p p' : Program} {pins : Table ClassId} {ref : ClassRef} {methods : List MethodSpec}
  {sourceFile : Option String}

/-- `classOf?` depends on names alone. -/
private theorem classOf?_congr (pins : Table ClassId) (ref : ClassRef) (h : p'.loaded = p.loaded) :
    classOf? p' pins ref = classOf? p pins ref := by
  cases ref with
  | loaded name => simp only [classOf?, Program.lookup, h]
  | pinned name => rfl

/-- `redefineOnce` edits no class but the one that is referred to. -/
private theorem edits_redefineOnce {r : Except RequestError Nat}
    (h : redefineOnce p pins ref methods sourceFile = (r, p')) :
    p.Edits (fun id => classOf? p pins ref = some id) p' := by
  -- By its name or by a pin, the class is the one that `classOf?` finds
  cases ref with
  | loaded name =>
    simp only [redefineOnce] at h
    split at h
    · rename_i hredefine
      cases h
      exact Program.edits_redefine hredefine
    · rename_i hredefine
      cases h
      exact Program.edits_redefine hredefine
  | pinned name =>
    simp only [redefineOnce] at h
    split at h
    · cases h
      exact .refl _ p
    · rename_i id hpin
      have hnamed : ∀ other, other = id → classOf? p pins (.pinned name) = some other :=
        fun other heq => hpin.trans (congrArg some heq.symm)
      split at h
      · rename_i hredefine
        cases h
        exact (Program.edits_redefineClass hredefine).mono hnamed
      · rename_i hredefine
        cases h
        exact (Program.edits_redefineClass hredefine).mono hnamed

/-- `purgeRef` of what refers to no class changes nothing. -/
private theorem purgeRef_of_none (hclass : classOf? p pins ref = none) :
    purgeRef p pins ref = (.error (.noClass ref), p) := by
  cases ref with
  | loaded name => simp only [purgeRef, show p.lookup name = none from hclass]
  | pinned name => simp only [purgeRef, show pins.get? name = none from hclass]

/-- `purgeRef` purges the class that is referred to. -/
private theorem purgeRef_of_some {id : ClassId} (hclass : classOf? p pins ref = some id) :
    purgeRef p pins ref = (.ok (), p.purge id) := by
  cases ref with
  | loaded name => simp only [purgeRef, show p.lookup name = some id from hclass]
  | pinned name => simp only [purgeRef, show pins.get? name = some id from hclass]

/-- `purgeRef` edits no class but the one that is referred to. -/
private theorem edits_purgeRef {r : Except RequestError Unit} (h : purgeRef p pins ref = (r, p')) :
    p.Edits (fun id => classOf? p pins ref = some id) p' := by
  cases hclass : classOf? p pins ref with
  | none =>
    rw [purgeRef_of_none hclass] at h
    cases h
    exact .refl _ p
  | some id =>
    rw [purgeRef_of_some hclass] at h
    cases h
    exact (p.edits_purge id).mono fun other heq => congrArg some heq.symm

/-- `redefineAndPurge` edits no class but the one that is referred to. -/
private theorem edits_redefineAndPurge {r : Except RequestError Nat}
    (h : redefineAndPurge p pins ref methods sourceFile = (r, p')) :
    p.Edits (fun id => classOf? p pins ref = some id) p' := by
  unfold redefineAndPurge at h
  split at h
  · rename_i hredefine
    cases h
    exact edits_redefineOnce hredefine
  · rename_i p₁ _ hredefine
    have hedits := edits_redefineOnce hredefine
    -- The second half goes for the same class, since names stand for what they did before
    have hpurge : ∀ {r p₂}, purgeRef p₁ pins ref = (r, p₂) →
        p.Edits (fun id => classOf? p pins ref = some id) p₂ := by
      intro r p₂ hpurge
      rw [← classOf?_congr pins ref hedits.loaded_eq] at hedits ⊢
      exact hedits.trans (edits_purgeRef hpurge)
    split at h
    · rename_i heq
      cases h
      exact hpurge heq
    · rename_i heq
      cases h
      exact hpurge heq

/-- `redefineMany` edits no other class, however often one is redefined, and with or without purging. -/
private theorem edits_redefineMany {purging : Bool} {last : Option Nat} {times : Nat}
    {r : Except RequestError (Option Nat)}
    (h : redefineMany p pins ref methods sourceFile purging last times = (r, p')) :
    p.Edits (fun id => classOf? p pins ref = some id) p' := by
  -- Induction on the times; a round leaves what the reference stands for
  induction times generalizing p last with
  | zero =>
    cases h
    exact .refl _ _
  | succ times ih =>
    have hround : ∀ {r p₁}, (if purging then redefineAndPurge p pins ref methods sourceFile
        else redefineOnce p pins ref methods sourceFile) = (r, p₁) →
        p.Edits (fun id => classOf? p pins ref = some id) p₁ := by
      intro r p₁ heq
      split at heq
      · exact edits_redefineAndPurge heq
      · exact edits_redefineOnce heq
    unfold redefineMany at h
    simp only at h
    split at h
    · rename_i heq
      cases h
      exact hround heq
    · rename_i heq
      have hedits := hround heq
      have hrest := ih h
      rw [classOf?_congr pins ref hedits.loaded_eq] at hrest
      exact hedits.trans hrest

end Redefine

namespace CodeRequest

/-- The class whose versions the request is about, for `CodeRequest.Changes`. -/
def changes? : CodeRequest → Option ClassRef
  | .redefine ref .. | .purge ref => some ref
  | _ => none

/-- The class whose versions the request can change: the one that `classOf?` finds on the machine. -/
def Changes (m : Machine) (r : CodeRequest) (id : ClassId) : Prop :=
  ∃ ref, r.changes? = some ref ∧ classOf? m.program m.pins ref = some id

/-- `CodeRequest.perform` leaves all classes as they are but the one that the request redefines or
    purges. -/
theorem grows {m : Machine} (hm : m.program.Valid) (r : CodeRequest) :
    m.program.Grows (r.Changes m) (r.perform m).program := by
  cases r with
  | define r =>
    simp only [perform, Machine.define]
    split
    · exact .refl _ _
    · split
      · rename_i hdefine
        exact Program.grows_define _ hdefine
      · rename_i hdefine
        split
        · exact Program.grows_define _ hdefine
        · exact Program.grows_define _ hdefine
  | redefine ref methods sourceFile purging times =>
    have hedits : m.program.Edits (fun id => classOf? m.program m.pins ref = some id)
        (redefineMany m.program m.pins ref methods sourceFile purging none times).2 :=
      edits_redefineMany rfl
    -- `Changes` names the class by the reference as it was before the request
    exact hedits.toGrows.mono fun id hid => ⟨ref, rfl, hid⟩
  | purge ref =>
    simp only [perform, Machine.purge]
    split
    · exact .refl _ _
    · rename_i c hclass
      obtain ⟨id, hid, hget⟩ := resolveClass_ok hclass
      refine (m.program.edits_purge c.id).toGrows.mono ?_
      rintro other rfl
      exact ⟨ref, rfl, hid.trans (congrArg some (hm.id_eq hget).symm)⟩
  | unload name =>
    simp only [perform, Machine.unload]
    split
    · rename_i hunload
      exact Program.grows_unload _ hunload
    · rename_i hunload
      split
      · exact Program.grows_unload _ hunload
      · exact Program.grows_unload _ hunload
  | intern text => exact Program.grows_symbols _ _ _
  | pin ref name =>
    simp only [perform, Machine.pin]
    split
    · exact .refl _ _
    · exact .refl _ _
  | unpin name => exact .refl _ _
  | holdMethod ref name =>
    simp only [perform, Machine.holdMethod]
    split
    · exact .refl _ _
    · exact .refl _ _
  | compile name method sites =>
    simp only [perform, Machine.compile]
    split
    · exact .refl _ _
    · exact .refl _ _
  | push thread frames =>
    simp only [perform, Machine.pushFrames]
    split
    · exact .refl _ _
    · exact .refl _ _
  | pop thread times => exact .refl _ _

end CodeRequest

/-! ## Requests about traces -/

section Throwables

variable {m : Machine} {name : String} {t : Throwable}

/-- The machine without the throwable under `name`, which is held elsewhere or given up. -/
def without (m : Machine) (name : String) : Machine :=
  { m with throwables := m.throwables.erase name }

/-- The machine with `t` under `name`, in place of any that had it. -/
def holding (m : Machine) (name : String) (t : Throwable) : Machine :=
  { m with throwables := m.throwables.insert name t }

/-- `Machine.takeThrowable` in terms of `Machine.without`. -/
theorem takeThrowable_eq (m : Machine) (name : String) :
    m.takeThrowable name = (m.throwables.get? name, m.without name) := rfl

/-- `Machine.dropThrowable` with nothing under the name. -/
theorem dropThrowable_of_none (h : m.throwables.get? name = none) :
    m.dropThrowable name = (false, m.without name) := by
  rw [dropThrowable, takeThrowable_eq, h]

/-- `Machine.dropThrowable` of the throwable under the name. -/
theorem dropThrowable_of_some (h : m.throwables.get? name = some t) :
    m.dropThrowable name = (true, (m.without name).releaseThrowable t) := by
  rw [dropThrowable, takeThrowable_eq, h]

/-- `Machine.putThrowable` drops what has the name and then holds the throwable. -/
theorem putThrowable_eq (m : Machine) (name : String) (t : Throwable) :
    m.putThrowable name t = (m.dropThrowable name).2.holding name t := rfl

/-- `Machine.ensureThread` names a thread with the stack that it has by `Machine.threadOf` already. -/
theorem threadOf_ensureThread (m : Machine) (thread : String) :
    (m.ensureThread thread).threadOf thread = m.threadOf thread := by
  unfold Machine.ensureThread
  split
  · rfl
  · rw [threadOf, Table.get?_insert, if_pos rfl, Option.getD_some]

/-- `Machine.ensureThread` leaves what keeps classes alive. -/
theorem owners_ensureThread (m : Machine) (thread : String) :
    (m.ensureThread thread).owners = m.owners := by
  unfold Machine.ensureThread
  split
  · rfl
  · rfl

/-- `Machine.ensureThread` leaves the runtime alone. -/
theorem world_ensureThread (m : Machine) (name : String) : (m.ensureThread name).world = m.world := by
  unfold Machine.ensureThread
  split
  · rfl
  · rfl

/-- `Machine.withThrowable` acts on the throwable of a name, if there is one. -/
theorem withThrowable_eq (m : Machine) (name : String)
    (action : Universe → List ClassId → Throwable →
      Except (Failure TraceError) Nat × Throwable × Universe) :
    (m.withThrowable name action).2 =
      match m.throwables.get? name with
      | none => m.without name
      | some t =>
        { m with world := (action m.world (m.without name).owners t).2.2 }.holding name
          (action m.world (m.without name).owners t).2.1 := by
  have hinsert : ∀ t' : Throwable,
      (m.without name).throwables.insert name t' = m.throwables.insert name t' := by
    intro t'
    simp only [without, Table.insert, Table.erase, List.filter_filter, Bool.and_self]
  rw [withThrowable, takeThrowable_eq]
  cases m.throwables.get? name with
  | none => rfl
  | some t =>
    simp only [hinsert]
    rfl

end Throwables

/-- Of the runtime only `Universe.memory` may change, and the pins are the same. -/
structure SameRuntime (m m' : Machine) : Prop where
  world_eq : ∃ memory, m'.world = { m.world with memory }
  pins_eq : m'.pins = m.pins

namespace SameRuntime

variable {m m' m'' : Machine}

/-- `SameRuntime` of machines that differ in the memory of the runtime and in what is held by name. -/
private theorem of_memory {memory : Memory} (hworld : m'.world = { m.world with memory })
    (hpins : m'.pins = m.pins) : m.SameRuntime m' := ⟨⟨memory, hworld⟩, hpins⟩

/-- `SameRuntime` is reflexive. -/
theorem refl (m : Machine) : m.SameRuntime m := .of_memory rfl rfl

/-- `SameRuntime` is transitive. -/
theorem trans (h : m.SameRuntime m') (h' : m'.SameRuntime m'') : m.SameRuntime m'' where
  world_eq := by
    obtain ⟨memory, hworld⟩ := h.world_eq
    obtain ⟨memory', hworld'⟩ := h'.world_eq
    rw [hworld] at hworld'
    exact ⟨memory', hworld'⟩
  pins_eq := h'.pins_eq.trans h.pins_eq

/-- `Machine.dropThrowable` leaves the runtime alone but for its memory. -/
theorem dropThrowable (m : Machine) (name : String) : m.SameRuntime (m.dropThrowable name).2 := by
  cases hget : m.throwables.get? name with
  | none =>
    rw [dropThrowable_of_none hget]
    exact .of_memory rfl rfl
  | some t =>
    rw [dropThrowable_of_some hget]
    exact .of_memory rfl rfl

/-- `Machine.putThrowable` leaves the runtime alone but for its memory. -/
theorem putThrowable (m : Machine) (name : String) (t : Throwable) :
    m.SameRuntime (m.putThrowable name t) :=
  (dropThrowable m name).trans (.of_memory rfl rfl)

/-- `Machine.ensureThread` leaves the runtime alone. -/
private theorem ensureThread (m : Machine) (name : String) : m.SameRuntime (m.ensureThread name) := by
  unfold Machine.ensureThread
  split
  · exact .refl m
  · exact .of_memory rfl rfl

/-- `Machine.withThrowable` leaves the runtime alone but for its memory if the action does so. -/
private theorem withThrowable (m : Machine) (name : String)
    {action : Universe → List ClassId → Throwable →
      Except (Failure TraceError) Nat × Throwable × Universe}
    (haction : ∀ u others t, ∃ memory, (action u others t).2.2 = { u with memory }) :
    m.SameRuntime (m.withThrowable name action).2 := by
  rw [withThrowable_eq]
  split
  · exact .of_memory rfl rfl
  · rename_i t _
    obtain ⟨memory, hworld⟩ := haction m.world (m.without name).owners t
    exact .of_memory hworld rfl

/-- `Machine.withThread` leaves the runtime alone but for its memory if the action does so. -/
private theorem withThread (m : Machine) (name thread : String)
    {action : ManagedThread → Universe → List ClassId → Throwable →
      Except (Failure TraceError) Nat × Throwable × Universe}
    (haction : ∀ stack u others t, ∃ memory, (action stack u others t).2.2 = { u with memory }) :
    m.SameRuntime (m.withThread name thread action).2 := by
  unfold Machine.withThread
  simp only
  split
  · exact (ensureThread m thread).trans (withThrowable _ name (haction _))
  · exact withThrowable _ name (haction _)

end SameRuntime

/-- Of the runtime only `Universe.memory` and `Universe.pool` may change, to which no error was added,
    and the pins are the same. -/
structure SameCode (m m' : Machine) : Prop where
  world_eq : ∃ memory pool, m'.world = { m.world with memory, pool } ∧ ∀ t ∈ pool, t ∈ m.world.pool
  pins_eq : m'.pins = m.pins

variable {m m' m'' : Machine}

/-- `SameRuntime` is `SameCode` with the pool as it was. -/
theorem SameRuntime.sameCode (h : m.SameRuntime m') : m.SameCode m' where
  world_eq := by
    obtain ⟨memory, hworld⟩ := h.world_eq
    exact ⟨memory, m.world.pool, hworld, fun _ ht => ht⟩
  pins_eq := h.pins_eq

namespace SameCode

/-- Machines that have the `SameCode` have the same program. -/
theorem program_eq (h : m.SameCode m') : m'.program = m.program := by
  obtain ⟨memory, pool, hworld, -⟩ := h.world_eq
  rw [program, hworld]
  rfl

/-- `SameCode` is transitive. -/
theorem trans (h : m.SameCode m') (h' : m'.SameCode m'') : m.SameCode m'' where
  world_eq := by
    obtain ⟨memory, pool, hworld, hpool⟩ := h.world_eq
    obtain ⟨memory', pool', hworld', hpool'⟩ := h'.world_eq
    rw [hworld] at hworld' hpool'
    exact ⟨memory', pool', hworld', fun t ht => hpool t (hpool' t ht)⟩
  pins_eq := h'.pins_eq.trans h.pins_eq

end SameCode

namespace TraceRequest

/-- Whether the request asks for an out-of-memory error. -/
def isOutOfMemory : TraceRequest → Bool
  | .outOfMemory .. => true
  | _ => false

/-- `TraceRequest.perform` leaves the runtime alone but for its memory, if the request does not ask for
    an out-of-memory error. -/
theorem sameRuntime (m : Machine) {r : TraceRequest} (hr : r.isOutOfMemory = false) :
    m.SameRuntime (r.perform m) := by
  -- Case by case over the requests; those that capture change no more than the capture does
  cases r with
  | raise name cls message cause =>
    simp only [perform, Machine.raise, takeThrowable_eq]
    split
    · exact .refl m
    · split
      · exact .putThrowable m name _
      · rename_i cause
        have hwithout : m.SameRuntime (m.without cause) := .of_memory rfl rfl
        cases m.throwables.get? cause with
        | none => exact hwithout
        | some inner => exact hwithout.trans (.putThrowable _ name _)
  | setCause name cause =>
    simp only [perform, Machine.setCause, takeThrowable_eq]
    cases m.throwables.get? cause with
    | none => exact .of_memory rfl rfl
    | some inner =>
      simp only
      split
      · exact .of_memory rfl rfl
      · exact .of_memory rfl rfl
  | setMessage name message =>
    simp only [perform, Machine.setMessage]
    split
    · exact .refl m
    · exact .of_memory rfl rfl
  | drop name => exact .dropThrowable m name
  | fill name thread method =>
    simp only [perform, Machine.fill]
    split
    · exact .refl m
    · exact .withThread m name thread fun stack u others t =>
        u.world_fillInStackTrace others t stack _
  | refill name thread =>
    exact .withThread m name thread fun stack u others t => u.world_refillStackTrace others t stack
  | allocate name => exact .withThrowable m name fun u _ t => u.world_allocateTrace t
  | outOfMemory name thread message => exact nomatch hr
  | reserve name payload =>
    simp only [perform, Machine.reserve]
    split
    · exact .of_memory rfl rfl
    · exact .of_memory rfl rfl
  | box name value =>
    simp only [perform, Machine.box]
    split
    · exact .of_memory rfl rfl
    · exact .of_memory rfl rfl
  | free name => exact .of_memory rfl rfl

/-- `TraceRequest.perform` leaves classes and pins alone, and prepares no error. -/
theorem sameCode (m : Machine) (r : TraceRequest) : m.SameCode (r.perform m) := by
  cases r with
  | outOfMemory name thread message =>
    obtain ⟨memory, pool, hworld, hpool⟩ := Universe.world_outOfMemoryError
      (m.ensureThread thread).world (m.ensureThread thread).owners
      ((m.ensureThread thread).threadOf thread) message
    have hhanded : (m.ensureThread thread).SameCode { m.ensureThread thread with
        world := { (m.ensureThread thread).world with memory, pool } } :=
      ⟨⟨memory, pool, rfl, hpool⟩, rfl⟩
    rw [← hworld] at hhanded
    exact ((SameRuntime.ensureThread m thread).sameCode.trans hhanded).trans
      (SameRuntime.putThrowable _ name _).sameCode
  | _ => exact (sameRuntime m rfl).sameCode

end TraceRequest

end StackTrace.Machine
