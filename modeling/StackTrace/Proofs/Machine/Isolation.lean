import StackTrace.Proofs.Machine.Alive

/-!
# Traces and other classes

A stored frame is resolved anew each time it is shown, by way of the class that it owns and of no name.
So whatever is done to other classes, a frame is shown as before: its name may be unloaded and defined
again for another class, other classes may be redefined and purged, and everything else that kept its
class alive may go.

A trace is followed by its *place*: the name of the throwable it is kept with, and how many causes
down.  Requests about other throwables leave it where it is; becoming a cause moves it.

## Key results

- `Machine.traceAt_perform`: a request that does not give a trace up leaves it as it was
- `Machine.get?_performAll`: requests that spare a class leave it as it was
- `Machine.element_of_run`: what of a frame stays the same through any requests that spare its class
-/

namespace StackTrace

/-! ## The innermost frame -/

namespace Cursor

/-- `Cursor.collect` puts what was read before in front of what is read yet. -/
theorem collect_eq_append (fuel : Nat) (c : Cursor) (found : List StoredFrame) :
    c.collect fuel found = found.reverse ++ c.collect fuel [] := by
  induction fuel generalizing c found with
  | zero => simp [collect]
  | succ fuel ih =>
    unfold collect
    split
    · simp
    · rename_i f c' _
      rw [ih c' (f :: found), ih c' [f]]
      simp

/-- `Cursor.next` at the start of a trace reads its first frame. -/
theorem next_start {s : Store} {f : StoredFrame} (h : s.frames[0]? = some f) :
    (start s).next.1 = some f := by
  rw [Store.frames, rest] at h
  generalize (start s).store.chunks.size * (start s).store.chunkSize = fuel at h
  cases fuel with
  | zero => simp [collect] at h
  | succ fuel =>
    unfold collect at h
    split at h
    · simp at h
    · rename_i g c' hnext
      rw [collect_eq_append] at h
      rw [hnext]
      simpa using h

end Cursor

/-! ## What a frame shows depends on its class -/

section SameClass

variable {p p' : Program} {f : StoredFrame}

/-- `StackTraceElement.ofFrame` looks at the class of the frame only. -/
private theorem StackTraceElement.ofFrame_congr (h : p'.get? f.holder = p.get? f.holder) :
    StackTraceElement.ofFrame p' f = StackTraceElement.ofFrame p f := by
  rw [ofFrame, ofFrame, h]

/-- `Throwable.liveMethod?` looks at the class of the frame only. -/
private theorem Throwable.liveMethod?_congr (h : p'.get? f.holder = p.get? f.holder) :
    liveMethod? p' f = liveMethod? p f := by
  rw [liveMethod?, liveMethod?, resolve?, resolve?, h]

/-- `Throwable.topMethod?` looks at the class of the innermost frame only. -/
private theorem Throwable.topMethod?_congr {t : Throwable} {s : Store} (htrace : t.head.trace = some s)
    (hf : s.frames[0]? = some f) (h : p'.get? f.holder = p.get? f.holder) :
    t.topMethod? p' = t.topMethod? p := by
  simp only [topMethod?, htrace, Cursor.next_start hf, liveMethod?_congr h]

end SameClass

/-! ## What a call leaves of the causes -/

namespace Universe

variable {u : Universe} {others : List ClassId} {t : Throwable} {thread : ManagedThread}

/-- `Universe.fillInStackTrace` leaves the causes alone. -/
theorem causes_fillInStackTrace (method : Option Method) :
    (u.fillInStackTrace others t thread method).2.1.causes = t.causes := by
  unfold fillInStackTrace
  split
  · rfl
  · simp only
    split
    · rfl
    · rfl
    · rfl

/-- `Universe.refillStackTrace` leaves the causes alone. -/
theorem causes_refillStackTrace :
    (u.refillStackTrace others t thread).2.1.causes = t.causes := by
  unfold refillStackTrace
  split
  · rfl
  · cases htrace : t.head.trace with
    | none =>
      simp only [Throwable.takeTrace, htrace]
      rfl
    | some s =>
      simp only [Throwable.takeTrace, htrace]
      rfl

/-- `Universe.allocateTrace` leaves the causes alone. -/
theorem causes_allocateTrace : (u.allocateTrace t).2.1.causes = t.causes := by
  unfold allocateTrace
  split
  · rfl
  · split
    · rfl
    · rfl

end Universe

namespace Machine

/-! ## Places -/

/-- Where a trace is kept: with the throwable under `name`, `depth` causes down. -/
structure Place where
  name : String
  depth : Nat
  deriving DecidableEq

/-- The place of a cause's trace under the throwable that it has become the cause of. -/
def Place.under (p : Place) (name : String) : Place := ⟨name, p.depth + 1⟩

/-- The store at a place: the trace of the throwable of that name, or of a cause in its `chain`. -/
def traceAt (m : Machine) (p : Place) : Option Store :=
  (m.throwables.get? p.name).bind fun t => (t.chain[p.depth]?).bind (·.trace)

/-- Where the trace at a place is after a request; `none` if it is given up or captured anew. -/
def TraceRequest.carry (m : Machine) (p : Place) : TraceRequest → Option Place
  | .raise name cls _ cause =>
    if (m.resolveClass cls).toOption.isNone then some p
    else if cause = some p.name then some (p.under name)
    else if name = p.name ∧ cause.all (m.throwables.contains ·) then none
    else some p
  | .setCause name cause =>
    if cause = p.name then
      if name ≠ cause ∧ m.throwables.contains name then some (p.under name) else none
    else if name = p.name ∧ p.depth ≠ 0 ∧ m.throwables.contains cause then none
    else some p
  | .fill name .. | .refill name .. | .allocate name =>
    if name = p.name ∧ p.depth = 0 then none else some p
  | .drop name | .outOfMemory name .. => if name = p.name then none else some p
  | .setMessage .. | .reserve .. | .box .. | .free .. => some p

/-- `TraceRequest.carry`; a request about code leaves a trace where it is. -/
def Request.carry (m : Machine) (p : Place) : Request → Option Place
  | .code _ => some p
  | .trace r => r.carry m p

/-- Where `Request.carry` takes the trace at a place with some requests, as long as none gives it up. -/
def carryAll (m : Machine) (p : Place) : List Request → Option Place
  | [] => some p
  | r :: requests => (r.carry m p).bind fun p => (m.perform r).carryAll p requests

section Place

variable {m m' : Machine} {p p' : Place} {name : String} {t : Throwable} {s : Store}

/-- `Machine.traceAt` looks at the table of throwables only. -/
private theorem traceAt_congr (h : m'.throwables = m.throwables) (p : Place) :
    m'.traceAt p = m.traceAt p := by
  rw [traceAt, h, traceAt]

/-- `Machine.traceAt` finds a trace with a throwable that there is. -/
private theorem exists_of_traceAt (h : m.traceAt p = some s) :
    ∃ t, m.throwables.get? p.name = some t ∧ (t.chain[p.depth]?).bind (·.trace) = some s :=
  Option.bind_eq_some_iff.mp h

/-- What is at a place stays where `Machine.without` takes another name out. -/
private theorem traceAt_without (hne : name ≠ p.name) : (m.without name).traceAt p = m.traceAt p := by
  simp only [traceAt, without, Table.get?_erase, Ne.symm hne, if_false]

/-- What is at a place stays where `Machine.holding` puts something under another name. -/
private theorem traceAt_holding (hne : name ≠ p.name) : (m.holding name t).traceAt p = m.traceAt p := by
  simp only [traceAt, holding, Table.get?_insert, Ne.symm hne, if_false]

/-- What `Machine.holding` puts under the name of a place decides what is there. -/
private theorem traceAt_holding_self (m : Machine) (p : Place) (t : Throwable) :
    (m.holding p.name t).traceAt p = (t.chain[p.depth]?).bind (·.trace) := by
  simp only [traceAt, holding, Table.get?_insert, if_true, Option.bind_some]

/-- `Throwable.withCause` puts a cause in the chain one place further down, at `Place.under`. -/
private theorem traceAt_under (m : Machine) (p : Place) (name : String) (t inner : Throwable) :
    (m.holding name (t.withCause inner)).traceAt (p.under name) =
      (inner.chain[p.depth]?).bind (·.trace) :=
  traceAt_holding_self m (p.under name) (t.withCause inner)

/-- `Machine.dropThrowable` of another name leaves what is at a place. -/
private theorem traceAt_dropThrowable (hne : name ≠ p.name) :
    (m.dropThrowable name).2.traceAt p = m.traceAt p := by
  cases hget : m.throwables.get? name with
  | none =>
    rw [dropThrowable_of_none hget]
    exact traceAt_without hne
  | some t =>
    rw [dropThrowable_of_some hget]
    exact traceAt_without hne

/-- `Machine.putThrowable` of another name leaves what is at a place. -/
private theorem traceAt_putThrowable (hne : name ≠ p.name) :
    (m.putThrowable name t).traceAt p = m.traceAt p :=
  (traceAt_holding hne).trans (traceAt_dropThrowable hne)

/-- `Machine.ensureThread` leaves what is at a place. -/
private theorem traceAt_ensureThread (m : Machine) (name : String) (p : Place) :
    (m.ensureThread name).traceAt p = m.traceAt p := by
  unfold Machine.ensureThread
  split
  · rfl
  · rfl

/-- `Machine.withThrowable` for another throwable, or for what a trace is the cause of, leaves the trace
    alone. -/
private theorem traceAt_withThrowable (hother : ¬(name = p.name ∧ p.depth = 0))
    {action : Universe → List ClassId → Throwable →
      Except (Failure TraceError) Nat × Throwable × Universe}
    (haction : ∀ u others t, (action u others t).2.1.causes = t.causes) :
    (m.withThrowable name action).2.traceAt p = m.traceAt p := by
  rw [withThrowable_eq]
  by_cases hname : name = p.name
  · subst hname
    obtain ⟨depth, hdepth⟩ : ∃ depth, p.depth = depth + 1 :=
      Nat.exists_eq_succ_of_ne_zero fun hzero => hother ⟨rfl, hzero⟩
    cases hget : m.throwables.get? p.name with
    | none => simp [traceAt, without, hget]
    | some t =>
      simp only
      rw [traceAt_holding_self]
      -- The causes are in the chain behind the throwable itself
      simp only [traceAt, hget, Option.bind_some, Throwable.chain, hdepth, List.getElem?_cons_succ,
        haction]
  · split
    · exact traceAt_without hname
    · exact traceAt_holding hname

/-- `Machine.withThread` for another throwable, or for what a trace is the cause of, leaves the trace
    alone. -/
private theorem traceAt_withThread {thread : String} (hother : ¬(name = p.name ∧ p.depth = 0))
    {action : ManagedThread → Universe → List ClassId → Throwable →
      Except (Failure TraceError) Nat × Throwable × Universe}
    (haction : ∀ stack u others t, (action stack u others t).2.1.causes = t.causes) :
    (m.withThread name thread action).2.traceAt p = m.traceAt p := by
  unfold Machine.withThread
  simp only
  split
  · exact (traceAt_withThrowable hother (haction _)).trans (traceAt_ensureThread m thread p)
  · exact traceAt_withThrowable hother (haction _)

/-- `Machine.raise` makes the trace that of a cause, or leaves it where it is. -/
private theorem traceAt_raise (hs : m.traceAt p = some s) {cls : ClassRef} {message cause : Option String}
    (hcarry : (TraceRequest.raise name cls message cause).carry m p = some p') :
    (m.raise name cls message cause).2.traceAt p' = some s := by
  obtain ⟨t, ht, htrace⟩ := exists_of_traceAt hs
  simp only [TraceRequest.carry] at hcarry
  simp only [Machine.raise, takeThrowable_eq]
  split
  · rename_i hclass
    simp only [hclass] at hcarry
    cases hcarry
    exact hs
  · rename_i c hclass
    simp only [hclass, Except.toOption, Option.isNone_some, Bool.false_eq_true, if_false] at hcarry
    cases cause with
    | none =>
      simp only [reduceCtorEq, if_false, Option.all_none, and_true] at hcarry
      -- Only a throwable of the same name would take its place
      split at hcarry
      · cases hcarry
      · rename_i hne
        cases hcarry
        exact (traceAt_putThrowable hne).trans hs
    | some cause =>
      by_cases hcause : cause = p.name
      · -- The trace becomes that of a cause
        subst hcause
        simp only [if_true] at hcarry
        cases hcarry
        simp only [ht]
        rw [putThrowable_eq, traceAt_under]
        exact htrace
      · simp only [Option.some.injEq, hcause, if_false, Option.all_some] at hcarry
        split at hcarry
        · cases hcarry
        · rename_i hkept
          cases hcarry
          cases hget : m.throwables.get? cause with
          | none =>
            -- Without a cause of that name the request fails
            simp only [hget]
            exact (traceAt_without hcause).trans hs
          | some inner =>
            simp only [hget]
            have hne : name ≠ p.name := fun heq =>
              hkept ⟨heq, by rw [Table.contains, hget]; rfl⟩
            exact ((traceAt_putThrowable hne).trans (traceAt_without hcause)).trans hs

/-- `Machine.setCause` makes the trace that of a cause, or leaves it where it is. -/
private theorem traceAt_setCause (hs : m.traceAt p = some s) {cause : String}
    (hcarry : (TraceRequest.setCause name cause).carry m p = some p') :
    (m.setCause name cause).2.traceAt p' = some s := by
  obtain ⟨t, ht, htrace⟩ := exists_of_traceAt hs
  simp only [TraceRequest.carry] at hcarry
  simp only [Machine.setCause, takeThrowable_eq]
  by_cases hcause : cause = p.name
  · -- The trace goes along, unless there is nothing that it could become the cause of
    subst hcause
    rw [if_pos rfl] at hcarry
    split at hcarry
    · rename_i hname
      cases hcarry
      obtain ⟨outer, houter⟩ := Option.isSome_iff_exists.mp hname.2
      have hleft : (m.without p.name).throwables.get? name = some outer := by
        rw [without, Table.get?_erase, if_neg hname.1, houter]
      simp only [ht, hleft]
      exact (traceAt_under _ p name outer t).trans htrace
    · cases hcarry
  · rw [if_neg hcause] at hcarry
    split at hcarry
    · cases hcarry
    · rename_i hkept
      cases hcarry
      -- Another throwable becomes the cause
      cases hget : m.throwables.get? cause with
      | none => exact (traceAt_without hcause).trans hs
      | some inner =>
        simp only
        split
        · exact (traceAt_without hcause).trans hs
        · rename_i outer houter
          by_cases hname : name = p.name
          · -- The throwable gets a new cause, and keeps its own trace
            subst hname
            have hzero : p.depth = 0 := by
              by_contra hne
              exact hkept ⟨rfl, hne, by rw [Table.contains, hget]; rfl⟩
            rw [without, Table.get?_erase, if_neg (Ne.symm hcause), ht] at houter
            cases houter
            refine (traceAt_holding_self _ p _).trans ?_
            rw [hzero] at htrace ⊢
            exact htrace
          · exact ((traceAt_holding hname).trans (traceAt_without hcause)).trans hs

/-- `Machine.setMessage` leaves what is at a place. -/
private theorem traceAt_setMessage (hs : m.traceAt p = some s) (name : String) (message : Option String) :
    (m.setMessage name message).2.traceAt p = some s := by
  obtain ⟨t, ht, htrace⟩ := exists_of_traceAt hs
  unfold Machine.setMessage
  split
  · exact hs
  · rename_i t' hget
    by_cases hname : name = p.name
    · subst hname
      cases ht.symm.trans hget
      refine (traceAt_holding_self _ p _).trans (Eq.trans ?_ htrace)
      cases p.depth with
      | zero => rfl
      | succ depth => rfl
    · exact (traceAt_holding hname).trans hs

/-- `TraceRequest.perform` leaves a trace as it was, where `TraceRequest.carry` takes it. -/
theorem TraceRequest.traceAt_perform {r : TraceRequest} (hs : m.traceAt p = some s)
    (hcarry : r.carry m p = some p') : (r.perform m).traceAt p' = some s := by
  -- Case by case over the requests: where `carry` answers, the trace was not given up
  cases r with
  | raise name cls message cause => exact traceAt_raise hs hcarry
  | setCause name cause => exact traceAt_setCause hs hcarry
  | setMessage name message =>
    cases hcarry
    exact traceAt_setMessage hs name message
  | drop name =>
    simp only [carry] at hcarry
    split at hcarry
    · cases hcarry
    · rename_i hne
      cases hcarry
      exact (traceAt_dropThrowable hne).trans hs
  | fill name thread method =>
    simp only [carry] at hcarry
    split at hcarry
    · cases hcarry
    · rename_i hother
      cases hcarry
      simp only [perform, Machine.fill]
      split
      · exact hs
      · exact (traceAt_withThread hother fun _ _ _ _ => Universe.causes_fillInStackTrace _).trans hs
  | refill name thread =>
    simp only [carry] at hcarry
    split at hcarry
    · cases hcarry
    · rename_i hother
      cases hcarry
      exact (traceAt_withThread hother fun _ _ _ _ => Universe.causes_refillStackTrace).trans hs
  | allocate name =>
    simp only [carry] at hcarry
    split at hcarry
    · cases hcarry
    · rename_i hother
      cases hcarry
      exact (traceAt_withThrowable hother fun _ _ _ => Universe.causes_allocateTrace).trans hs
  | outOfMemory name thread message =>
    simp only [carry] at hcarry
    split at hcarry
    · cases hcarry
    · rename_i hne
      cases hcarry
      simp only [perform, Machine.outOfMemory]
      refine (traceAt_putThrowable hne).trans ?_
      exact (traceAt_ensureThread m thread p).trans hs
  | reserve name payload =>
    cases hcarry
    simp only [perform, Machine.reserve]
    split
    · exact hs
    · exact hs
  | box name value =>
    cases hcarry
    simp only [perform, Machine.box]
    split
    · exact hs
    · exact hs
  | free name =>
    cases hcarry
    exact hs

/-- `Machine.perform` leaves a trace as it was, where `Request.carry` takes it. -/
theorem traceAt_perform {r : Request} (hs : m.traceAt p = some s) (hcarry : r.carry m p = some p') :
    (m.perform r).traceAt p' = some s := by
  cases r with
  | code r =>
    cases hcarry
    exact (traceAt_congr (r.sameTraces m).throwables_eq p).trans hs
  | trace r => exact r.traceAt_perform hs hcarry

/-- `Machine.performAll` leaves a trace as it was, where `Machine.carryAll` takes it. -/
private theorem traceAt_performAll {requests : List Request} (hs : m.traceAt p = some s)
    (hcarry : m.carryAll p requests = some p') : (m.performAll requests).traceAt p' = some s := by
  induction requests generalizing m p with
  | nil =>
    cases hcarry
    exact hs
  | cons r requests ih =>
    obtain ⟨next, hnext, hrest⟩ := Option.bind_eq_some_iff.mp hcarry
    exact ih (traceAt_perform hs hnext) hrest

/-- `Machine.traceAt` finds traces of the machine only. -/
private theorem hasTrace_of_traceAt (hs : m.traceAt p = some s) : m.HasTrace s := by
  obtain ⟨t, ht, htrace⟩ := exists_of_traceAt hs
  obtain ⟨c, hc, hcs⟩ := Option.bind_eq_some_iff.mp htrace
  exact ⟨t, List.mem_append_right _ (Table.mem_values_of_get? ht), c, List.mem_of_getElem? hc, hcs⟩

end Place

/-! ## Sparing a class -/

/-- `CodeRequest.Changes`; a request about traces changes no class. -/
def Request.Changes (m : Machine) : Request → ClassId → Prop
  | .code r => r.Changes m
  | .trace _ => fun _ => False

/-- None of the requests changes the class, by `Request.Changes`. -/
def Spares (id : ClassId) (m : Machine) : List Request → Prop
  | [] => True
  | r :: requests => ¬r.Changes m id ∧ Spares id (m.perform r) requests

section Sparing

variable {m : Machine} {id : ClassId} {c : Class}

/-- `Machine.perform` leaves a class as it was that the request does not change. -/
private theorem get?_perform (hm : m.Valid) {r : Request} (hspared : ¬r.Changes m id)
    (hget : m.program.get? id = some c) : (m.perform r).program.get? id = some c := by
  cases r with
  | code r => exact Program.get?_of_grows (r.grows hm.world.program) hget hspared
  | trace r =>
    rw [perform, (r.sameCode m).program_eq]
    exact hget

/-- `Machine.performAll` leaves a class as it was if the requests spare it. -/
theorem get?_performAll (hm : m.Valid) {requests : List Request} (hspared : m.Spares id requests)
    (hget : m.program.get? id = some c) : (m.performAll requests).program.get? id = some c := by
  induction requests generalizing m with
  | nil => exact hget
  | cons r requests ih =>
    exact ih (valid_perform m r hm) hspared.2 (get?_perform hm hspared.1 hget)

end Sparing

instance (m : Machine) (r : CodeRequest) (id : ClassId) : Decidable (r.Changes m id) :=
  decidable_of_iff (r.changes?.bind (classOf? m.program m.pins) = some id) Option.bind_eq_some_iff

instance (m : Machine) (r : Request) (id : ClassId) : Decidable (r.Changes m id) :=
  match r with
  | .code r => inferInstanceAs (Decidable (r.Changes m id))
  | .trace _ => inferInstanceAs (Decidable False)

instance decidableSpares (id : ClassId) :
    (m : Machine) → (requests : List Request) → Decidable (Spares id m requests)
  | _, [] => inferInstanceAs (Decidable True)
  | m, r :: requests =>
    have := decidableSpares id (m.perform r) requests
    inferInstanceAs (Decidable (¬r.Changes m id ∧ Spares id (m.perform r) requests))

/-! ## Through a run -/

/-- `StackTraceElement.ofFrame` shows a frame of a trace as before, as the element that it is, as a line
    of the text and as the innermost method, through all requests that spare its class
    (`Machine.Spares`).  The frame stays in the trace as long as no request gives that up
    (`Machine.carryAll`), and the class is alive as long, whatever else kept it alive may be gone. -/
theorem element_of_run {config : RuntimeConfig} {before after : List Request} {m : Machine}
    {s : Store} {i : Nat} {f : StoredFrame} (h : run config before = .ok m) (hs : m.HasTrace s)
    (hf : s.frames[i]? = some f) (hspared : m.Spares f.holder after) :
    (∀ p p', m.traceAt p = some s → m.carryAll p after = some p' →
      (m.performAll after).traceAt p' = some s ∧
      (m.performAll after).owned.contains f.holder = true) ∧
    (∀ c : Condition, c.trace = some s →
      (c.elements (m.performAll after).program)[i]? = (c.elements m.program)[i]? ∧
      ((c.elements (m.performAll after).program).map Throwable.frameLine)[i]? =
        ((c.elements m.program).map Throwable.frameLine)[i]?) ∧
    (i = 0 → ∀ t : Throwable, t.head.trace = some s →
      t.topMethod? (m.performAll after).program = t.topMethod? m.program) := by
  have hm := valid_of_run h
  have hafter : (m.performAll after).Valid := of_performAll valid_perform hm after
  have hmem : f ∈ s.frames := List.mem_of_getElem? hf
  -- The trace keeps the class alive, so that there is one to leave as it was
  have halive : m.owned.contains f.holder = true := hm.alive_of_trace hs hmem
  obtain ⟨c, hget⟩ := Option.isSome_iff_exists.mp (Program.isSome_get?_of_owned halive)
  have hsame : (m.performAll after).program.get? f.holder = m.program.get? f.holder :=
    (get?_performAll hm hspared hget).trans hget.symm
  -- The trace itself, what it is shown as, and its innermost method
  refine ⟨?_, ?_, ?_⟩
  · intro p p' hp hcarry
    have htrace := traceAt_performAll hp hcarry
    exact ⟨htrace, hafter.alive_of_trace (hasTrace_of_traceAt htrace) hmem⟩
  · intro c hc
    have helement : (c.elements (m.performAll after).program)[i]? = (c.elements m.program)[i]? := by
      simp only [Condition.elements, Condition.frames, hc, Option.map_some, Option.getD_some,
        List.getElem?_map, hf, StackTraceElement.ofFrame_congr hsame]
    refine ⟨helement, ?_⟩
    rw [List.getElem?_map, List.getElem?_map, helement]
  · rintro rfl t ht
    exact Throwable.topMethod?_congr ht hf hsame

/-- A class is defined, a method of it called, and the stack captured. -/
def traceWidget : List Request :=
  [.code (.define { name := "acme/Widget", methods := [{ name := "run" }] }),
    .code (.push "main"
      [(.entry, 1), (.interpreted (.numbered (.loaded "acme/Widget") 0 0) 0, 1)]),
    .trace (.raise "failure" (.loaded Universe.errorName) none none),
    .trace (.allocate "failure"), .trace (.refill "failure" "main")]

/-- The throwable becomes the cause of another, and the name of the class goes to another class, which is
    then redefined and purged. -/
def replaceWidget : List Request :=
  [.trace (.raise "report" (.loaded Universe.errorName) none (some "failure")),
    .code (.unload "acme/Widget"),
    .code (.define { name := "acme/Widget", methods := [{ name := "stop" }] }),
    .code (.redefine (.loaded "acme/Widget") [{ name := "stop" }] none true 1)]

/-- `element_of_run` for `replaceWidget`: the trace is now that of a cause, and its innermost method is
    the same as before. -/
theorem element_of_run_replaceWidget : ∃ m s f, run {} traceWidget = .ok m ∧
    m.traceAt ⟨"failure", 0⟩ = some s ∧ s.frames[0]? = some f ∧
    m.carryAll ⟨"failure", 0⟩ replaceWidget = some ⟨"report", 1⟩ ∧
    m.Spares f.holder replaceWidget ∧
    (m.performAll replaceWidget).traceAt ⟨"report", 1⟩ = some s ∧
    (m.performAll replaceWidget).owned.contains f.holder = true ∧
    ∀ t : Throwable, t.head.trace = some s →
      t.topMethod? (m.performAll replaceWidget).program = t.topMethod? m.program := by
  -- The run is evaluated once, up to the conditions of the theorem
  have htraced : (match run {} traceWidget with
      | .error _ => false
      | .ok m => (m.traceAt ⟨"failure", 0⟩).any fun s => (s.frames[0]?).any fun f =>
          decide (m.carryAll ⟨"failure", 0⟩ replaceWidget = some ⟨"report", 1⟩) &&
            decide (m.Spares f.holder replaceWidget)) = true := by
    decide +kernel
  split at htraced
  · cases htraced
  · rename_i m hrun
    simp only [Option.any_eq_true, Bool.and_eq_true, decide_eq_true_eq] at htraced
    obtain ⟨s, hs, f, hf, hcarry, hspared⟩ := htraced
    obtain ⟨hkept, -, htop⟩ := element_of_run hrun (hasTrace_of_traceAt hs) hf hspared
    obtain ⟨htrace, halive⟩ := hkept _ _ hs hcarry
    exact ⟨m, s, f, hrun, hs, hf, hcarry, hspared, htrace, halive, htop rfl⟩

end Machine

end StackTrace
