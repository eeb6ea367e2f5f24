import StackTrace.Proofs.Capture.Books
import StackTrace.Proofs.Capture.Prepared
import StackTrace.Proofs.Machine.Alive

/-!
# Out-of-memory errors in a run

The errors that were prepared at the start are handed out one by one, each with its own store, whatever
else happens in between.

## Key results

- `Machine.drained_performAll`: what requests leave of the runtime and of its prepared errors
- `Machine.outOfMemory_of_run`: what an out-of-memory error looks like after any requests
-/

namespace StackTrace.Machine

/-- `TraceRequest.isOutOfMemory`; a request about code does not ask for an error. -/
def Request.isOutOfMemory : Request → Bool
  | .code _ => false
  | .trace r => r.isOutOfMemory

/-! ## The pool over a run -/

/-- Nothing has changed but the memory and the program, and `taken` of the prepared errors are gone. -/
def Drained (u : Universe) (taken : Nat) (u' : Universe) : Prop :=
  ∃ memory program, u' = { u with memory, program, pool := u.pool.drop taken }

/-- `Drained` adds up: what two runs in a row take out of the pool. -/
theorem Drained.trans {u u' u'' : Universe} {taken more : Nat} (h : Drained u taken u')
    (h' : Drained u' more u'') : Drained u (taken + more) u'' := by
  obtain ⟨memory, program, rfl⟩ := h
  obtain ⟨memory', program', rfl⟩ := h'
  refine ⟨memory', program', ?_⟩
  rw [← List.drop_drop]

/-- `Drained` leaves the settings alone, so traces are recorded as before. -/
private theorem Drained.enabled {u u' : Universe} {taken : Nat} (h : Drained u taken u')
    (henabled : u.config.backtrace.enabled = true) : u'.config.backtrace.enabled = true := by
  obtain ⟨memory, program, rfl⟩ := h
  exact henabled

/-- `Machine.outOfMemory` is `Universe.outOfMemoryError`, and then the error is kept under its name. -/
private theorem outOfMemory_eq (m : Machine) (name thread : String) (message : Option String) :
    m.outOfMemory name thread message =
      let handed := m.world.outOfMemoryError m.owners (m.threadOf thread) message
      (⟨handed.1, handed.2.pool.length,
          (handed.2.memory.heap.used, handed.2.memory.heap.allocations)⟩,
        { m.ensureThread thread with world := handed.2 }.putThrowable name handed.1) := by
  simp only [outOfMemory, world_ensureThread, owners_ensureThread, threadOf_ensureThread, heapCounts]

/-- `Machine.perform` takes an error out of the pool exactly if the request asks for one. -/
private theorem drained_perform {m : Machine} (henabled : m.world.config.backtrace.enabled = true)
    (r : Request) : Drained m.world r.isOutOfMemory.toNat (m.perform r).world := by
  -- Of the requests about traces all others leave the runtime alone but for its memory
  have hother : ∀ r : TraceRequest, r.isOutOfMemory = false →
      Drained m.world 0 (r.perform m).world := by
    intro r hr
    obtain ⟨memory, hworld⟩ := (r.sameRuntime m hr).world_eq
    exact ⟨memory, m.program, hworld⟩
  cases r with
  | code r => exact ⟨m.world.memory, _, (r.sameTraces m).world_eq⟩
  | trace r =>
    cases r with
    | outOfMemory name thread message =>
      obtain ⟨memory, hhanded⟩ := Universe.world_outOfMemoryError_of_enabled henabled m.owners
        (m.threadOf thread) message
      obtain ⟨memory', hkept⟩ := (SameRuntime.putThrowable { m.ensureThread thread with
        world := (m.world.outOfMemoryError m.owners (m.threadOf thread) message).2 } name
        (m.world.outOfMemoryError m.owners (m.threadOf thread) message).1).world_eq
      refine ⟨memory', m.program, ?_⟩
      rw [perform, TraceRequest.perform, outOfMemory_eq]
      -- Keeping the error under a name gives back what had the name, and takes nothing from the pool
      refine hkept.trans ?_
      rw [hhanded, ← List.drop_one]
      rfl
    | _ => exact hother _ rfl

/-- `Machine.performAll` takes an error out of the pool for each request that asks for one. -/
theorem drained_performAll {m : Machine} (henabled : m.world.config.backtrace.enabled = true)
    (requests : List Request) :
    Drained m.world (requests.countP Request.isOutOfMemory) (m.performAll requests).world := by
  induction requests generalizing m with
  | nil => exact ⟨m.world.memory, m.program, rfl⟩
  | cons r requests ih =>
    have hfirst := drained_perform henabled r
    have hcount : (r :: requests).countP Request.isOutOfMemory =
        r.isOutOfMemory.toNat + requests.countP Request.isOutOfMemory := by
      rw [List.countP_cons, Nat.add_comm]
      cases r.isOutOfMemory <;> rfl
    rw [hcount]
    exact hfirst.trans (ih (hfirst.enabled henabled))

/-- `Machine.run` leaves of the errors that were prepared at the start all but one for each
    out-of-memory error that was asked for. -/
theorem drained_of_run {config : RuntimeConfig} {requests : List Request} {m : Machine}
    (henabled : config.backtrace.enabled = true) (h : run config requests = .ok m) :
    ∃ u, Universe.genesis config = .ok u ∧ u.PoolReady ∧
      u.pool.length = config.backtrace.preallocatedErrors ∧ 0 < config.backtrace.chunkSize ∧
      u.config = config ∧ u.outOfMemoryClass = (Universe.boot config).outOfMemoryClass ∧
      Drained u (requests.countP Request.isOutOfMemory) m.world := by
  unfold run at h
  split at h
  · cases h
  · rename_i u hgenesis
    cases h
    obtain ⟨hready, hlength, hclass, hpos⟩ := Universe.pool_of_genesis henabled hgenesis
    have hconfig := Universe.config_genesis hgenesis
    have hdrained := drained_performAll (m := ofUniverse u) (hconfig.symm ▸ henabled) requests
    exact ⟨u, hgenesis, hready, hlength, hpos, hconfig, hclass, hdrained⟩

/-! ## Handing out an error -/

/-- `Universe.owned` is the same while a prepared error is being filled as before. -/
private theorem owned_of_ready {m : Machine} {chunkSize : Nat} {reservation : Reservation}
    {rest : List Throwable} (hpool : m.world.pool =
      Throwable.ready m.world.outOfMemoryClass chunkSize reservation :: rest) :
    (Universe.owned { m.world with pool := rest } (m.world.outOfMemoryClass :: m.owners)).contains =
      m.owned.contains := by
  have howners : (Throwable.ready m.world.outOfMemoryClass chunkSize reservation).owners =
      [m.world.outOfMemoryClass] := rfl
  refine Program.contains_owned_congr _ fun r => ?_
  simp only [Universe.roots, hpool, List.flatMap_cons, howners, List.mem_append, List.mem_cons,
    List.cons_append, List.not_mem_nil]
  tauto

/-- `Machine.outOfMemory` needs no memory, in whatever state a run has left the machine and whichever
    thread asks for it.  Nothing but the walk itself (`Failure.IsOfWalk`) can end the recording early,
    and what is recorded by then is kept (`Store.HoldsFirst`).  The errors of `Universe.prepareErrors`
    are handed out once each, and those that are asked for when all are gone have no trace. -/
theorem outOfMemory_of_run {config : RuntimeConfig} {requests : List Request} {m : Machine}
    (henabled : config.backtrace.enabled = true) (h : run config requests = .ok m)
    (name thread : String) (message : Option String) :
    let calls := requests.countP Request.isOutOfMemory
    let prepared := config.backtrace.preallocatedErrors
    let chunkSize := config.backtrace.chunkSize
    let cls := (Universe.boot config).outOfMemoryClass
    let report := (m.outOfMemory name thread message).1
    let storable := (Walk.ofStack (m.threadOf thread).stack).storable m.owned.contains
    report.heap = m.heapCounts ∧ m.world.pool.length = prepared - calls ∧
    report.available = prepared - (calls + 1) ∧
    (calls < prepared → ∃ u reservation s, Universe.genesis config = .ok u ∧
      let t := (Throwable.ready cls chunkSize reservation).modifyHead ({ · with message })
      u.pool[calls]? = some (Throwable.ready cls chunkSize reservation) ∧
      m.world.pool = u.pool.drop calls ∧
      report.throwable = t.modifyHead
        ({ · with trace := some s, depth := min chunkSize storable.length }) ∧
      s.HoldsFirst m.program storable chunkSize reservation ∧
      ∀ e, (Universe.refillStackTrace { m.world with pool := u.pool.drop (calls + 1) } m.owners t
        (m.threadOf thread)).1 = .error e → e.IsOfWalk) ∧
    (prepared ≤ calls →
      report.throwable = (Throwable.prepared cls).modifyHead ({ · with message })) := by
  intro calls prepared chunkSize cls report storable
  -- By `drained_of_run` the pool is that of the start, less one error for each call
  obtain ⟨u, hgenesis, hready, hlength, hpos, hconfig, hclass, memory, program, hworld⟩ :=
    drained_of_run henabled h
  have hm := valid_of_run h
  have hpool : m.world.pool = u.pool.drop calls := congrArg Universe.pool hworld
  have hcls : m.world.outOfMemoryClass = cls :=
    (congrArg Universe.outOfMemoryClass hworld).trans hclass
  have henabled' : m.world.config.backtrace.enabled = true := by
    rw [congrArg Universe.config hworld, hconfig]
    exact henabled
  have hleft : m.world.pool.length = prepared - calls := by
    rw [hpool, List.length_drop, hlength]
  have hreport := congrArg Prod.fst (m.outOfMemory_eq name thread message)
  -- An error is left exactly if there were fewer calls than errors
  by_cases hcalls : calls < prepared
  · have hlt : calls < u.pool.length := hlength.symm ▸ hcalls
    obtain ⟨reservation, hfirst⟩ := hready u.pool[calls] (List.getElem_mem hlt)
    rw [hclass, hconfig] at hfirst
    -- The errors before this one are gone, and it is as it was made
    have hcons : m.world.pool =
        Throwable.ready cls chunkSize reservation :: u.pool.drop (calls + 1) := by
      rw [hpool, List.drop_eq_getElem_cons hlt, hfirst]
    have halive := owned_of_ready (hcls.symm ▸ hcons)
    -- So the recording goes into the chunk that it has, and charges nothing
    obtain ⟨s, hhanded, herror, hholds⟩ := Universe.outOfMemoryError_of_cons henabled'
      hm.world.program hpos hcons m.owners (m.threadOf thread) message
    rw [hcls] at halive
    rw [halive] at hhanded hholds
    rw [hhanded] at hreport
    have hrest : (u.pool.drop (calls + 1)).length = prepared - (calls + 1) := by
      rw [List.length_drop, hlength]
    refine ⟨congrArg OutOfMemoryReport.heap hreport, hleft,
      (congrArg OutOfMemoryReport.available hreport).trans hrest, fun _ => ?_, fun hle => ?_⟩
    · have hget : u.pool[calls]? = some (Throwable.ready cls chunkSize reservation) :=
        List.getElem?_eq_some_iff.mpr ⟨hlt, hfirst⟩
      exact ⟨u, reservation, s, hgenesis, hget, hpool,
        congrArg OutOfMemoryReport.throwable hreport, hholds, herror⟩
    · exact absurd hcalls (Nat.not_lt.mpr hle)
  · -- All of them are gone
    have hle : prepared ≤ calls := Nat.le_of_not_lt hcalls
    have hnil : m.world.pool = [] := List.eq_nil_of_length_eq_zero (by omega)
    rw [Universe.outOfMemoryError_of_nil hnil, hcls] at hreport
    refine ⟨congrArg OutOfMemoryReport.heap hreport, hleft, ?_, fun hlt => absurd hlt hcalls,
      fun _ => congrArg OutOfMemoryReport.throwable hreport⟩
    have hzero : report.available = m.world.pool.length :=
      congrArg OutOfMemoryReport.available hreport
    omega

/-- Room for two prepared errors, and a little more. -/
def noRoom : RuntimeConfig :=
  { backtrace := { chunkSize := 8, preallocatedErrors := 2 }, heap := { limitBytes := some 600 } }

/-- A hidden method is called from one whose caller is at an index that cannot be stored.  What is left of
    the memory is reserved, and the first error is handed out. -/
def fillUp : List Request :=
  [.code (.define { name := "acme/Widget", methods :=
      [{ name := "run" }, { name := "call", flags := { hidden := true } }] }),
    .code (.push "main" [(.entry, 1),
      (.interpreted (.numbered (.loaded "acme/Widget") 0 0) 70000, 1),
      (.interpreted (.numbered (.loaded "acme/Widget") 0 0) 3, 1),
      (.interpreted (.numbered (.loaded "acme/Widget") 1 0) 0, 1)]),
    .trace (.reserve "rest" 40), .trace (.outOfMemory "first" "main" none)]

/-- `outOfMemory_of_run` for `fillUp`: the second error is handed out when no byte is left.  It has the
    two frames up to the index that cannot be stored, the hidden one among them. -/
theorem outOfMemory_of_run_fillUp : ∃ m s, run noRoom fillUp = .ok m ∧
    m.heapCounts.1 = 600 ∧
    let report := (m.outOfMemory "second" "main" (some "exhausted")).1
    report.heap = m.heapCounts ∧ m.world.pool.length = 1 ∧ report.available = 0 ∧
    report.throwable.head.message = some "exhausted" ∧ report.throwable.head.depth = 2 ∧
    report.throwable.head.trace = some s ∧ s.frames.length = 2 := by
  -- The run leaves no byte, and a stack with two indices that can be stored before one that cannot
  have hfull : (match run noRoom fillUp with
      | .error _ => false
      | .ok m => m.heapCounts.1 == 600 &&
          ((Walk.ofStack (m.threadOf "main").stack).storable m.owned.contains).length == 2) =
        true := by
    decide +kernel
  split at hfull
  · cases hfull
  · rename_i m hrun
    simp only [Bool.and_eq_true, beq_iff_eq] at hfull
    obtain ⟨hused, hstorable⟩ := hfull
    obtain ⟨hheap, hleft, havailable, hhanded, -⟩ :=
      outOfMemory_of_run rfl hrun "second" "main" (some "exhausted")
    obtain ⟨u, reservation, s, -, -, -, hthrowable, hholds, -⟩ := hhanded (by decide)
    have hframes : s.frames.length = 2 := by
      rw [hholds.frames_eq.length_eq, List.length_take, hstorable]
      rfl
    refine ⟨m, s, hrun, hused, hheap, hleft, havailable, ?_, ?_, ?_, hframes⟩
    · rw [hthrowable]
      rfl
    · rw [hthrowable]
      exact congrArg (min 8) hstorable
    · rw [hthrowable]
      rfl

end StackTrace.Machine
