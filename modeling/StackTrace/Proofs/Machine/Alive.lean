import StackTrace.Proofs.Machine.Requests
import StackTrace.Proofs.Program.Ownership

/-!
# Classes that stay alive

Throughout every run, what keeps classes alive refers to classes of the program.  Among the roots are
the classes of all frames in traces, so the classes that a trace refers to stay alive as long as it does.
An activation on a stack keeps nothing alive: once its class is unloaded and no root is left, the
activation is passed over.

## Key results

- `Machine.TraceRequest.allHold`: what a runtime keeps of the throwables that it is given holds of all that a
  machine has
- `Machine.valid_of_run`: names, pins, throwables and prepared errors refer to classes that are there
- `Machine.Valid.alive_iff`: a class is alive if it is an ancestor of a root, and only then
- `Machine.holder_of_run`: what a trace keeps alive, and which activations a walk visits
- `Machine.not_alive_of_activation`: a stack keeps no class alive
-/

namespace StackTrace

/-! ## A runtime -/

namespace Universe

/-- `Program.classes` has the class. -/
def Has (u : Universe) (id : ClassId) : Prop := id.index < u.program.classes.size

/-- `Program.Valid` holds, and the classes that the runtime itself keeps alive are there. -/
structure Valid (u : Universe) : Prop where
  program : u.program.Valid
  throwableClass : u.Has u.throwableClass
  outOfMemoryClass : u.Has u.outOfMemoryClass
  pool : ∀ t ∈ u.pool, t.Owns u.Has

/-- `Program.Valid` holds after `bootstrapClass`, which only defines a class. -/
private theorem valid_bootstrapClass {p : Program} (hp : p.Valid) (d : ClassDefinition) :
    (bootstrapClass p d).2.Valid := by
  unfold bootstrapClass
  split
  · rename_i hdefine
    exact (Program.grows_defineUnregistered (fun _ => False) hdefine).1.valid hp
  · rename_i hdefine
    obtain ⟨hgrows, hlt⟩ := Program.grows_defineUnregistered (fun _ => False) hdefine
    exact (Program.grows_register (fun _ => False) _ d.name (hlt _ rfl)).valid (hgrows.valid hp)

/-- `Universe.boot` leads to a `Universe.Valid` state, with its three classes and an empty pool. -/
private theorem valid_boot (config : RuntimeConfig) : (boot config).Valid where
  program := by
    have hempty : ∀ symbols, ({ Program.empty with symbols } : Program).Valid :=
      fun symbols => ⟨fun h => by simp [Program.get?, Program.empty] at h, nofun⟩
    simp only [boot]
    exact valid_bootstrapClass (valid_bootstrapClass (valid_bootstrapClass (hempty _) _) _) _
  throwableClass := show 0 < 3 by decide
  outOfMemoryClass := show 2 < 3 by decide
  pool := nofun

/-- `Program.All` of `Universe.Has`: classes of the program own no more than the program has. -/
private theorem Valid.all {u : Universe} (hu : u.Valid) : u.program.All u.Has := by
  intro id c hget
  rw [hu.program.id_eq hget]
  exact Program.index_lt_of_get? hget

/-- `Universe.prepareErrors` keeps `Universe.Valid`. -/
private theorem valid_prepareErrors (count : Nat) {u u' : Universe} (hu : u.Valid)
    (h : u.prepareErrors count = .ok u') : u'.Valid := by
  -- Induction on the errors that are yet to be prepared
  induction count generalizing u with
  | zero =>
    cases h
    exact hu
  | succ count ih =>
    unfold prepareErrors at h
    split at h
    · cases h
    · rename_i t u₁ hallocate
      obtain ⟨memory, hworld⟩ := u.world_allocateTrace (Throwable.prepared u.outOfMemoryClass)
      have ht : (u.allocateTrace (Throwable.prepared u.outOfMemoryClass)).2.1.Owns u.Has :=
        owns_allocateTrace (owns_prepared hu.outOfMemoryClass)
      rw [hallocate] at hworld ht
      cases hworld
      -- A prepared error owns nothing but its own class
      have hpool : ∀ t' ∈ t :: u.pool, t'.Owns u.Has := by
        intro t' ht'
        rcases List.mem_cons.mp ht' with rfl | ht'
        · exact ht
        · exact hu.pool t' ht'
      have hprepared : Valid { u with memory, pool := t :: u.pool } :=
        ⟨hu.program, hu.throwableClass, hu.outOfMemoryClass, hpool⟩
      exact ih hprepared h

/-- `Universe.genesis` leads to a `Universe.Valid` state. -/
private theorem valid_genesis {config : RuntimeConfig} {u : Universe} (h : genesis config = .ok u) :
    u.Valid := by
  unfold genesis at h
  split at h
  · cases h
  · split at h
    · cases h
    · simp only at h
      split at h
      · exact valid_prepareErrors _ (valid_boot config) h
      · cases h
        exact valid_boot config

end Universe

/-- `Throwable.Owns` is monotone in what is known of the classes. -/
private theorem Throwable.Owns.mono {P Q : ClassId → Prop} {t : Throwable} (ht : t.Owns P)
    (hPQ : ∀ id, P id → Q id) : t.Owns Q := fun id hid => hPQ id (ht id hid)

namespace Machine

/-- `Universe.Valid` holds, and the classes that pins and throwables keep alive are there. -/
structure Valid (m : Machine) : Prop where
  world : m.world.Valid
  pins : ∀ id ∈ m.pins.values, m.world.Has id
  throwables : ∀ t ∈ m.throwables.values, t.Owns m.world.Has

variable {m m' : Machine}

/-! ## Requests about code -/

/-- `CodeRequest.perform` pins no class that is not there. -/
private theorem CodeRequest.pins_perform (hm : m.Valid) (r : CodeRequest) :
    ∀ id ∈ (r.perform m).pins.values, id ∈ m.pins.values ∨ m.world.Has id := by
  intro id hid
  -- Only `pin` adds to the pins
  cases r with
  | pin ref name =>
    simp only [perform, Machine.pin] at hid
    split at hid
    · exact .inl hid
    · rename_i c hclass
      obtain ⟨id', -, hget⟩ := resolveClass_ok hclass
      rcases Table.eq_or_mem_of_mem_insert hid with rfl | hid
      · exact .inr (hm.world.all id' c hget)
      · exact .inl hid
  | unpin name => exact .inl (Table.mem_values_of_mem_erase hid)
  | define r =>
    simp only [perform, Machine.define] at hid
    split at hid
    · exact .inl hid
    · split at hid
      · exact .inl hid
      · split at hid
        · exact .inl hid
        · exact .inl hid
  | redefine ref methods sourceFile purging times => exact .inl hid
  | purge ref =>
    simp only [perform, Machine.purge] at hid
    split at hid
    · exact .inl hid
    · exact .inl hid
  | unload name =>
    simp only [perform, Machine.unload] at hid
    split at hid
    · exact .inl hid
    · split at hid
      · exact .inl hid
      · exact .inl hid
  | intern text => exact .inl hid
  | holdMethod ref name =>
    simp only [perform, Machine.holdMethod] at hid
    split at hid
    · exact .inl hid
    · exact .inl hid
  | compile name method sites =>
    simp only [perform, Machine.compile] at hid
    split at hid
    · exact .inl hid
    · exact .inl hid
  | push thread frames =>
    simp only [perform, Machine.pushFrames] at hid
    split at hid
    · exact .inl hid
    · exact .inl hid
  | pop thread times => exact .inl hid

/-- `CodeRequest.perform` keeps `Machine.Valid`. -/
private theorem CodeRequest.valid (hm : m.Valid) (r : CodeRequest) : (r.perform m).Valid := by
  have hgrows := grows hm.world.program r
  obtain ⟨hworld, hthrowables, -⟩ := sameTraces m r
  -- A class that was there is there still
  have hkept : ∀ id, m.world.Has id → (r.perform m).world.Has id := by
    intro id hid
    exact Nat.lt_of_lt_of_le hid hgrows.size_le
  refine ⟨⟨hgrows.valid hm.world.program, ?_, ?_, ?_⟩, ?_, ?_⟩
  · rw [congrArg Universe.throwableClass hworld]
    exact hkept _ hm.world.throwableClass
  · rw [congrArg Universe.outOfMemoryClass hworld]
    exact hkept _ hm.world.outOfMemoryClass
  · rw [congrArg Universe.pool hworld]
    exact fun t ht => (hm.world.pool t ht).mono hkept
  · intro id hid
    exact hkept id ((pins_perform hm r id hid).elim (hm.pins id) fun h => h)
  · rw [hthrowables]
    exact fun t ht => (hm.throwables t ht).mono hkept

/-! ## Requests about traces -/

/-- All throwables of a machine own what satisfies `P`. -/
def AllOwn (P : ClassId → Prop) (m : Machine) : Prop := ∀ t ∈ m.throwables.values, t.Owns P

/-- All throwables of a machine satisfy `Q`. -/
def AllHold (Q : Throwable → Prop) (m : Machine) : Prop := ∀ t ∈ m.throwables.values, Q t

section AllHold

variable {Q : Throwable → Prop} {name : String} {t : Throwable}

/-- `AllHold` of the machine without the throwable of a name. -/
private theorem AllHold.without (hm : m.AllHold Q) (name : String) : (m.without name).AllHold Q :=
  fun t ht => hm t (Table.mem_values_of_mem_erase ht)

/-- `AllHold` with a further throwable that it holds of. -/
private theorem AllHold.holding (hm : m.AllHold Q) (name : String) (ht : Q t) :
    (m.holding name t).AllHold Q := by
  intro t' ht'
  rcases Table.eq_or_mem_of_mem_insert ht' with rfl | ht'
  · exact ht
  · exact hm t' ht'

/-- `AllHold` survives `Machine.dropThrowable`. -/
private theorem AllHold.dropThrowable (hm : m.AllHold Q) (name : String) :
    (m.dropThrowable name).2.AllHold Q := by
  cases hget : m.throwables.get? name with
  | none =>
    rw [dropThrowable_of_none hget]
    exact hm.without name
  | some t =>
    rw [dropThrowable_of_some hget]
    exact hm.without name

/-- `AllHold` survives `Machine.putThrowable` of a throwable that it holds of. -/
private theorem AllHold.putThrowable (hm : m.AllHold Q) (name : String) (ht : Q t) :
    (m.putThrowable name t).AllHold Q :=
  (hm.dropThrowable name).holding name ht

/-- `AllHold` does not look at the threads. -/
private theorem AllHold.ensureThread (hm : m.AllHold Q) (name : String) :
    (m.ensureThread name).AllHold Q := by
  unfold Machine.ensureThread
  split
  · exact hm
  · exact hm

/-- `AllHold` survives `Machine.withThrowable` if the action keeps what holds. -/
private theorem AllHold.withThrowable (hm : m.AllHold Q) (name : String)
    {action : Universe → List ClassId → Throwable →
      Except (Failure TraceError) Nat × Throwable × Universe}
    (haction : ∀ others t, Q t → Q (action m.world others t).2.1) :
    (m.withThrowable name action).2.AllHold Q := by
  rw [withThrowable_eq]
  split
  · exact hm.without name
  · rename_i t hget
    exact AllHold.holding (m := { m with world := _ }) hm name
      (haction _ t (hm t (Table.mem_values_of_get? hget)))

/-- `AllHold` survives `Machine.withThread` likewise. -/
private theorem AllHold.withThread (hm : m.AllHold Q) (name thread : String)
    {action : ManagedThread → Universe → List ClassId → Throwable →
      Except (Failure TraceError) Nat × Throwable × Universe}
    (haction : ∀ stack others t, Q t → Q (action stack m.world others t).2.1) :
    (m.withThread name thread action).2.AllHold Q := by
  unfold Machine.withThread
  simp only
  split
  · refine (hm.ensureThread thread).withThrowable name ?_
    rw [world_ensureThread]
    exact haction _
  · exact hm.withThrowable name (haction _)

/-- Whatever a runtime does to throwables that satisfy `Q`, they go on to do so, and so do those that it
    makes. -/
structure Keeps (Q : Throwable → Prop) (u : Universe) : Prop where
  new : ∀ {id c}, u.program.get? id = some c → ∀ message, Q (Throwable.new c.id message)
  withCause : ∀ {t inner : Throwable}, Q t → Q inner → Q (t.withCause inner)
  withMessage : ∀ {t : Throwable} (message), Q t → Q (t.modifyHead ({ · with message }))
  fill : ∀ {others t stack} (method), Q t → Q (u.fillInStackTrace others t stack method).2.1
  refill : ∀ {others t stack}, Q t → Q (u.refillStackTrace others t stack).2.1
  allocate : ∀ {t}, Q t → Q (u.allocateTrace t).2.1
  handOut : ∀ {others stack} (message), Q (u.outOfMemoryError others stack message).1

/-- `Machine.raise` makes a throwable of a class of the program, with a cause that was held before. -/
private theorem AllHold.raise (hkeeps : Keeps Q m.world) (hm : m.AllHold Q) (name : String) (cls : ClassRef)
    (message cause : Option String) : (m.raise name cls message cause).2.AllHold Q := by
  simp only [Machine.raise, takeThrowable_eq]
  split
  · exact hm
  · rename_i c hclass
    obtain ⟨id, -, hget⟩ := resolveClass_ok hclass
    have hnew : Q (Throwable.new c.id message) := hkeeps.new hget message
    split
    · exact hm.putThrowable name hnew
    · rename_i cause
      -- The cause leaves the table, and the new throwable takes it along
      cases hcause : m.throwables.get? cause with
      | none => exact hm.without cause
      | some inner =>
        have hinner := hm inner (Table.mem_values_of_get? hcause)
        exact (hm.without cause).putThrowable name (hkeeps.withCause hnew hinner)

/-- `Machine.setCause` puts nothing but held throwables together. -/
private theorem AllHold.setCause (hkeeps : Keeps Q m.world) (hm : m.AllHold Q) (name cause : String) :
    (m.setCause name cause).2.AllHold Q := by
  simp only [Machine.setCause, takeThrowable_eq]
  have hwithout := hm.without cause
  cases hcause : m.throwables.get? cause with
  | none => exact hwithout
  | some inner =>
    have hinner := hm inner (Table.mem_values_of_get? hcause)
    simp only
    split
    · exact hwithout
    · rename_i t hget
      have ht := hwithout t (Table.mem_values_of_get? hget)
      exact hwithout.holding name (hkeeps.withCause ht hinner)

/-- `TraceRequest.perform` keeps `AllHold Q` if the runtime keeps `Q` by `Keeps`, whatever becomes of
    the throwables. -/
theorem TraceRequest.allHold (hkeeps : Keeps Q m.world) (hm : m.AllHold Q) (r : TraceRequest) :
    (r.perform m).AllHold Q := by
  cases r with
  | raise name cls message cause => exact hm.raise hkeeps name cls message cause
  | setCause name cause => exact hm.setCause hkeeps name cause
  | setMessage name message =>
    simp only [perform, Machine.setMessage]
    split
    · exact hm
    · rename_i t hget
      exact hm.holding name (hkeeps.withMessage message (hm t (Table.mem_values_of_get? hget)))
  | drop name => exact hm.dropThrowable name
  | fill name thread method =>
    simp only [perform, Machine.fill]
    split
    · exact hm
    · exact hm.withThread name thread fun stack others t ht => hkeeps.fill _ ht
  | refill name thread =>
    exact hm.withThread name thread fun stack others t ht => hkeeps.refill ht
  | allocate name => exact hm.withThrowable name fun others t ht => hkeeps.allocate ht
  | outOfMemory name thread message =>
    simp only [perform, Machine.outOfMemory]
    have hhanded : AllHold Q { m.ensureThread thread with
        world := ((m.ensureThread thread).world.outOfMemoryError (m.ensureThread thread).owners
          ((m.ensureThread thread).threadOf thread) message).2 } := hm.ensureThread thread
    refine hhanded.putThrowable name ?_
    rw [world_ensureThread]
    exact hkeeps.handOut message
  | reserve name payload =>
    simp only [perform, Machine.reserve]
    split
    · exact hm
    · exact hm
  | box name value =>
    simp only [perform, Machine.box]
    split
    · exact hm
    · exact hm
  | free name => exact hm

end AllHold

/-- `TraceRequest.allHold` for `Throwable.Owns`: no throwable owns a class that is not there. -/
private theorem TraceRequest.allOwn (hm : m.Valid) (r : TraceRequest) :
    (r.perform m).AllOwn m.world.Has :=
  allHold (Q := Throwable.Owns m.world.Has)
    { new := fun hget message =>
        Throwable.owns_of_untraced (hm.world.all _ _ hget) message false
      withCause := fun ht hinner => ht.withCause hinner
      withMessage := fun _ ht => ht
      fill := fun method ht => Universe.owns_fillInStackTrace hm.world.all ht method
      refill := Universe.owns_refillStackTrace hm.world.all
      allocate := Universe.owns_allocateTrace
      handOut := Universe.owns_outOfMemoryError hm.world.all hm.world.outOfMemoryClass hm.world.pool }
    hm.throwables r

/-- `TraceRequest.perform` keeps `Machine.Valid`. -/
private theorem TraceRequest.valid (hm : m.Valid) (r : TraceRequest) : (r.perform m).Valid := by
  have hown := allOwn hm r
  obtain ⟨⟨memory, pool, hworld, hpool⟩, hpins⟩ := sameCode m r
  refine ⟨?_, ?_, ?_⟩
  · rw [hworld]
    exact ⟨hm.world.program, hm.world.throwableClass, hm.world.outOfMemoryClass,
      fun t ht => hm.world.pool t (hpool t ht)⟩
  · rw [hpins, hworld]
    exact hm.pins
  · rw [hworld]
    exact hown

/-! ## Runs -/

/-- `Machine.perform` keeps `Machine.Valid`. -/
theorem valid_perform (m : Machine) (r : Request) (hm : m.Valid) : (m.perform r).Valid := by
  cases r with
  | code r => exact r.valid hm
  | trace r => exact r.valid hm

/-- `Machine.run` leads to `Machine.Valid` states only: whatever keeps classes alive refers to classes
    that are there. -/
theorem valid_of_run {config : RuntimeConfig} {requests : List Request}
    (h : run config requests = .ok m) : m.Valid :=
  of_run (fun _ hu => ⟨Universe.valid_genesis hu, nofun, nofun⟩) valid_perform h

/-- `Machine.owned` has all that a throwable of the machine owns. -/
private theorem Valid.alive_of_owners (hm : m.Valid) {t : Throwable}
    (ht : t ∈ m.world.pool ++ m.throwables.values) {id : ClassId} (hid : id ∈ t.owners) :
    m.owned.contains id = true := by
  rcases List.mem_append.mp ht with ht | ht
  · refine Program.contains_owned_of_root ?_ (hm.world.pool t ht id hid)
    simp only [Universe.roots, List.cons_append, List.mem_cons, List.mem_append, List.mem_flatMap]
    exact .inr (.inr (.inl (.inr ⟨t, ht, hid⟩)))
  · refine Program.contains_owned_of_root ?_ (hm.throwables t ht id hid)
    simp only [owners, List.mem_append, List.mem_flatMap]
    exact .inr (.inr ⟨t, ht, hid⟩)

/-- A trace of the machine: that of a throwable or of one of its causes, in its table or in
    `Universe.pool`. -/
def HasTrace (m : Machine) (s : Store) : Prop :=
  ∃ t ∈ m.world.pool ++ m.throwables.values, ∃ c ∈ t.chain, c.trace = some s

/-- `Machine.owned` has the classes of all frames of a trace. -/
theorem Valid.alive_of_trace (hm : m.Valid) {s : Store} (hs : m.HasTrace s) {f : StoredFrame}
    (hf : f ∈ s.frames) : m.owned.contains f.holder = true := by
  obtain ⟨t, ht, c, hc, htrace⟩ := hs
  refine hm.alive_of_owners ht (List.mem_flatMap.mpr ⟨c, hc, ?_⟩)
  rw [Condition.owners, htrace]
  exact List.mem_cons_of_mem _ (Store.holder_mem_owners hf)

/-- `Machine.owned` has a class if and only if it is an ancestor of a root. -/
theorem Valid.alive_iff (hm : m.Valid) (id : ClassId) :
    m.owned.contains id = true ↔ ∃ r ∈ m.world.roots ++ m.owners, id ∈ m.program.ancestors r := by
  -- Every root is there, whichever of the six kinds it is of
  have hroots : ∀ r ∈ m.world.roots ++ m.owners, m.world.Has r := by
    intro r hr
    simp only [Universe.roots, owners, List.cons_append, List.mem_cons, List.mem_append,
      List.mem_flatMap] at hr
    rcases hr with rfl | rfl | (hr | ⟨t, ht, hr⟩) | hr | ⟨t, ht, hr⟩
    · exact hm.world.throwableClass
    · exact hm.world.outOfMemoryClass
    · exact hm.world.program.loaded_lt r hr
    · exact hm.world.pool t ht r hr
    · exact hm.pins r hr
    · exact hm.throwables t ht r hr
  refine (Program.contains_owned_iff _ _ id).trans ⟨And.left, fun h => ⟨h, ?_⟩⟩
  -- An ancestor of a class that is there is there, too
  obtain ⟨r, hr, hmem⟩ := h
  exact Nat.lt_of_le_of_lt (Program.index_le_of_mem_ancestors hmem) (hroots r hr)

/-- `Program.holder` finds the class of a method exactly while it is alive. -/
private theorem Valid.holder_iff (hm : m.Valid) (method : Method) :
    (∃ c, m.program.holder m.owned.contains method = some c ∧ c.id = method.holder) ↔
      m.owned.contains method.holder = true := by
  constructor
  · rintro ⟨c, hholder, -⟩
    rw [Program.holder] at hholder
    split at hholder
    · assumption
    · cases hholder
  · intro halive
    obtain ⟨c, hget⟩ := Option.isSome_iff_exists.mp (Program.isSome_get?_of_owned halive)
    exact ⟨c, by rw [Program.holder, if_pos halive]; exact hget, hm.world.program.id_eq hget⟩

/-- `Program.holder` finds the class of a frame from its methods as long as a trace has the frame,
    whatever was unloaded or let go of.  An activation on a stack does not keep its class alive:
    `Walk.visited` has it if and only if its class is an ancestor of a root, be it the registry's, a
    pin, or the class of a throwable or of a frame in a trace. -/
theorem holder_of_run {config : RuntimeConfig} {requests : List Request}
    (h : run config requests = .ok m) :
    (∀ s, m.HasTrace s → ∀ f ∈ s.frames, ∀ method : Method, method.holder = f.holder →
      ∃ c, m.program.holder m.owned.contains method = some c ∧ c.id = f.holder) ∧
    ∀ (w : Walk) (a : Activation), a ∈ w.visited m.owned.contains ↔ a ∈ w.activations ∧
      ∃ r ∈ m.world.roots ++ m.owners, a.method.holder ∈ m.program.ancestors r := by
  have hm := valid_of_run h
  constructor
  · intro s hs f hf method hmethod
    have halive := hm.alive_of_trace hs hf
    rw [← hmethod] at halive ⊢
    exact (hm.holder_iff method).mpr halive
  · intro w a
    rw [Walk.visited, List.mem_filter, hm.alive_iff]

/-- A class is defined, a method of it called and the stack captured, and then the class is unloaded. -/
def unloadTraced : List Request :=
  [.code (.define { name := "acme/Widget", methods := [{ name := "run" }] }),
    .code (.push "main"
      [(.entry, 1), (.interpreted (.numbered (.loaded "acme/Widget") 0 0) 0, 1)]),
    .trace (.raise "failure" (.loaded Universe.errorName) none none),
    .trace (.allocate "failure"), .trace (.refill "failure" "main"),
    .code (.unload "acme/Widget")]

/-- `holder_of_run` for `unloadTraced`: the class is no longer registered, and can be found as the trace
    needs it. -/
theorem holder_of_run_unloadTraced : ∃ m, run {} unloadTraced = .ok m ∧
    m.program.lookup "acme/Widget" = none ∧ ∃ s f c, m.HasTrace s ∧ f ∈ s.frames ∧
      m.program.holder m.owned.contains ⟨f.holder, 0, 0, 0, f.name, f.name, {}, 1, []⟩ = some c ∧
      c.id = ⟨3⟩ := by
  -- The run is evaluated once, to find a trace with a frame of the unloaded class
  have hfound : (match run {} unloadTraced with
      | .error _ => false
      | .ok m => m.program.lookup "acme/Widget" == none && m.throwables.values.any fun t =>
          (t.head.trace.map Store.frames).any fun fs => fs.any (·.holder == ⟨3⟩)) = true := by
    decide +kernel
  split at hfound
  · cases hfound
  · rename_i m hrun
    simp only [Bool.and_eq_true, beq_iff_eq, List.any_eq_true, Option.any_eq_true,
      Option.map_eq_some_iff] at hfound
    obtain ⟨hunloaded, t, ht, -, ⟨s, hs, rfl⟩, f, hf, hholder⟩ := hfound
    have htrace : m.HasTrace s := ⟨t, List.mem_append_right _ ht, t.head, List.mem_cons_self, hs⟩
    obtain ⟨c, hc, hid⟩ := (holder_of_run hrun).1 s htrace f hf
      ⟨f.holder, 0, 0, 0, f.name, f.name, {}, 1, []⟩ rfl
    exact ⟨m, hrun, hunloaded, s, f, c, htrace, hf, hc, hid.trans hholder⟩

/-- A class is defined, a method of it called, and then the class is unloaded. -/
def unloadRunning : List Request :=
  [.code (.define { name := "acme/Widget", methods := [{ name := "run" }] }),
    .code (.push "main"
      [(.entry, 1), (.interpreted (.numbered (.loaded "acme/Widget") 0 0) 0, 1)]),
    .code (.unload "acme/Widget")]

/-- `Machine.owned` need not have the class of a method on a stack. -/
theorem not_alive_of_activation : ¬ ∀ config requests m, run config requests = .ok m →
    ∀ t ∈ m.threads.values, ∀ a ∈ (Walk.ofStack t.stack).activations,
      m.owned.contains a.method.holder = true := by
  intro halive
  -- A run with a frame on the stack and its class unloaded behind its back
  have hgone : (match run {} unloadRunning with
      | .error _ => false
      | .ok m => m.threads.values.any fun t => (Walk.ofStack t.stack).activations.any fun a =>
          !m.owned.contains a.method.holder) = true := by
    decide +kernel
  split at hgone
  · cases hgone
  · rename_i m hrun
    simp only [List.any_eq_true, Bool.not_eq_true'] at hgone
    obtain ⟨t, ht, a, ha, hholder⟩ := hgone
    have hcontains := halive {} unloadRunning m hrun t ht a ha
    rw [hholder] at hcontains
    cases hcontains

end Machine

end StackTrace
