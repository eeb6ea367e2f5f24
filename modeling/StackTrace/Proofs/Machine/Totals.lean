import StackTrace.Proofs.Capture.Room
import StackTrace.Proofs.Machine.Books

/-!
# The exact totals of a run

What a machine owns at a moment is an exact sum over its reservations (`Machine.held`), and so is the most
that it owns at once in the course of a request (`Machine.peak`).  Neither is what the heap has charged,
where sums saturate.  As long as these totals stay below the largest word, a run without a limit on the
heap goes as it would under the greatest exact limit, and the books balance all the same.

## Key results

- `Machine.TraceRequest.perform_withLimit`: a request goes without a limit as under one that leaves room
  for its peak
- `Machine.balanced_withLimit_of_run`: so does a run under a limit that leaves room for all its totals
- `Machine.le_of_mem_runTotals`: under a limit the totals of every run stay within it
- `Machine.used_of_run`: what is charged after a run, by the prices of what is owned
-/

namespace StackTrace.Machine

/-! ## What is owned at once -/

/-- The most that a machine holds in the course of an action on the throwable of a name, where `peak` is the
    most that this throwable holds with all that is made for it. -/
def throwablePeak (m : Machine) (name : String)
    (peak : Universe → List ClassId → Throwable → Nat) : Nat :=
  match m.throwables.get? name with
  | none => m.held
  | some t => peak m.world (m.without name).owners t + (m.without name).held

/-- The most that `TraceRequest.perform` holds at once, as an exact sum.  Requests that allocate nothing
    hold no more than before. -/
def TraceRequest.peak (m : Machine) : TraceRequest → Nat
  | .fill name thread method =>
    match method.mapM m.resolveMethod with
    | .error _ => m.held
    | .ok method =>
      m.throwablePeak name fun u others t => u.fillPeak others t (m.threadOf thread) method
  | .allocate name => m.throwablePeak name fun u _ t => u.allocatePeak t
  | .reserve _ payload => m.held + Memory.granted (·.bytes) (m.world.memory.allocate payload).1
  | .box _ value => m.held + Memory.granted (·.reservation.bytes) (m.world.memory.box value).1
  | .raise .. | .setCause .. | .setMessage .. | .drop .. | .refill .. | .outOfMemory .. | .free .. =>
    m.held

/-- The most that a machine holds at once in the course of a request, by `TraceRequest.peak`. -/
def peak (m : Machine) : Request → Nat
  | .code _ => m.held
  | .trace r => r.peak m

/-- The exact totals that a machine comes to with some requests: `Machine.held` before each of them and
    after the last one, and `Machine.peak` of each. -/
def totals (m : Machine) : List Request → List Nat
  | [] => [m.held]
  | r :: requests => m.held :: m.peak r :: (m.perform r).totals requests

/-- `Machine.totals` of a run. -/
def runTotals (config : RuntimeConfig) (requests : List Request) : List Nat :=
  match Universe.genesis config with
  | .error _ => []
  | .ok u => (ofUniverse u).totals requests

/-! ## Lifting the limit -/

/-- The same machine with another limit on its heap, or with none. -/
def withLimit (m : Machine) (limit : Option Nat) : Machine := { m with world := m.world.withLimit limit }

section WithLimit

variable {m : Machine} {limit : Nat} {free : Option Nat}

/-- `Machine.dropThrowable` takes no notice of the limit. -/
private theorem dropThrowable_withLimit (m : Machine) (name : String) (limit : Option Nat) :
    ((m.withLimit limit).dropThrowable name).2 = (m.dropThrowable name).2.withLimit limit := by
  cases hget : m.throwables.get? name with
  | none =>
    rw [dropThrowable_of_none hget, dropThrowable_of_none (m := m.withLimit limit) hget]
    rfl
  | some t =>
    rw [dropThrowable_of_some hget, dropThrowable_of_some (m := m.withLimit limit) hget]
    have hreleased := m.world.memory.releaseAll_withLimit limit t.reservations
    exact congrArg (m.without name).setMemory hreleased

/-- `Machine.putThrowable` takes no notice of the limit. -/
private theorem putThrowable_withLimit (m : Machine) (name : String) (t : Throwable) (limit : Option Nat) :
    (m.withLimit limit).putThrowable name t = (m.putThrowable name t).withLimit limit := by
  rw [putThrowable_eq, putThrowable_eq, dropThrowable_withLimit]
  rfl

/-- `Machine.ensureThread` takes no notice of the limit. -/
private theorem ensureThread_withLimit (m : Machine) (name : String) (limit : Option Nat) :
    (m.withLimit limit).ensureThread name = (m.ensureThread name).withLimit limit := by
  cases hnamed : m.threads.contains name with
  | true => simp only [ensureThread, withLimit, hnamed, if_true]
  | false =>
    simp only [ensureThread, withLimit, hnamed, Bool.false_eq_true, if_false]
    rfl

/-- `Machine.withThrowable` goes without a limit as under it if the action does so. -/
private theorem withThrowable_withLimit (m : Machine) (name : String)
    {action : Universe → List ClassId → Throwable →
      Except (Failure TraceError) Nat × Throwable × Universe}
    (haction : ∀ t, m.throwables.get? name = some t →
      action (m.world.withLimit free) (m.without name).owners t =
        ((action m.world (m.without name).owners t).1,
          (action m.world (m.without name).owners t).2.1,
          (action m.world (m.without name).owners t).2.2.withLimit free)) :
    ((m.withLimit free).withThrowable name action).2 =
      (m.withThrowable name action).2.withLimit free := by
  rw [withThrowable_eq, withThrowable_eq]
  have hsame : (m.withLimit free).throwables = m.throwables := rfl
  rw [hsame]
  cases hget : m.throwables.get? name with
  | none => rfl
  | some t =>
    have hacted : action (m.withLimit free).world ((m.withLimit free).without name).owners t = _ :=
      haction t hget
    simp only [hacted]
    rfl

/-- `Machine.withThread` goes without a limit as under it if the action does so. -/
private theorem withThread_withLimit (m : Machine) (name thread : String)
    {action : ManagedThread → Universe → List ClassId → Throwable →
      Except (Failure TraceError) Nat × Throwable × Universe}
    (haction : ∀ t, m.throwables.get? name = some t →
      action (m.threadOf thread) (m.world.withLimit free) (m.without name).owners t =
        ((action (m.threadOf thread) m.world (m.without name).owners t).1,
          (action (m.threadOf thread) m.world (m.without name).owners t).2.1,
          (action (m.threadOf thread) m.world (m.without name).owners t).2.2.withLimit free)) :
    ((m.withLimit free).withThread name thread action).2 =
      (m.withThread name thread action).2.withLimit free := by
  have hsame : (m.withLimit free).throwables = m.throwables := rfl
  unfold withThread
  simp only [hsame]
  cases hnamed : m.throwables.contains name with
  | true =>
    simp only [if_true, ensureThread_withLimit]
    -- The thread that is made has no say in what the action finds
    have hthread : ((m.ensureThread thread).withLimit free).threadOf thread = m.threadOf thread :=
      threadOf_ensureThread m thread
    have hworld := world_ensureThread m thread
    have hthrowables : (m.ensureThread thread).throwables = m.throwables := by
      unfold ensureThread
      split
      · rfl
      · rfl
    have howners : ((m.ensureThread thread).without name).owners = (m.without name).owners := by
      unfold ensureThread
      split
      · rfl
      · rfl
    rw [hthread, threadOf_ensureThread]
    apply withThrowable_withLimit
    rw [hworld, hthrowables, howners]
    exact haction
  | false =>
    simp only [Bool.false_eq_true, if_false]
    exact withThrowable_withLimit m name haction

/-! ## Requests -/

/-- `Machine.raise` takes no notice of the limit. -/
private theorem raise_withLimit (m : Machine) (name : String) (cls : ClassRef)
    (message cause : Option String) (limit : Option Nat) :
    ((m.withLimit limit).raise name cls message cause).2 =
      (m.raise name cls message cause).2.withLimit limit := by
  have hclass : (m.withLimit limit).resolveClass cls = m.resolveClass cls := rfl
  simp only [Machine.raise, takeThrowable_eq, hclass]
  cases m.resolveClass cls with
  | error e => rfl
  | ok c =>
    cases cause with
    | none => exact putThrowable_withLimit m name _ limit
    | some cause =>
      have hsame : (m.withLimit limit).throwables.get? cause = m.throwables.get? cause := rfl
      simp only [hsame]
      cases m.throwables.get? cause with
      | none => rfl
      | some inner => exact putThrowable_withLimit (m.without cause) name _ limit

/-- `Machine.setCause` takes no notice of the limit. -/
private theorem setCause_withLimit (m : Machine) (name cause : String) (limit : Option Nat) :
    ((m.withLimit limit).setCause name cause).2 = (m.setCause name cause).2.withLimit limit := by
  have hcause : (m.withLimit limit).throwables.get? cause = m.throwables.get? cause := rfl
  simp only [Machine.setCause, takeThrowable_eq, hcause]
  cases m.throwables.get? cause with
  | none => rfl
  | some inner =>
    have hname : ((m.withLimit limit).without cause).throwables.get? name =
      (m.without cause).throwables.get? name := rfl
    simp only [hname]
    cases (m.without cause).throwables.get? name with
    | none =>
      exact congrArg (m.without cause).setMemory
        (m.world.memory.releaseAll_withLimit limit inner.reservations)
    | some t =>
      have hreleased := m.world.memory.releaseAll_withLimit limit
        (t.causes.flatMap Condition.reservations)
      exact congrArg (fun memory =>
        ((m.without cause).setMemory memory).holding name (t.withCause inner)) hreleased

/-- `Machine.setMessage` takes no notice of the limit. -/
private theorem setMessage_withLimit (m : Machine) (name : String) (message : Option String)
    (limit : Option Nat) :
    ((m.withLimit limit).setMessage name message).2 =
      (m.setMessage name message).2.withLimit limit := by
  have hname : (m.withLimit limit).throwables.get? name = m.throwables.get? name := rfl
  simp only [Machine.setMessage, hname]
  cases m.throwables.get? name with
  | none => rfl
  | some t => rfl

/-- `Machine.outOfMemory` takes no notice of the limit. -/
private theorem outOfMemory_withLimit (hm : m.Balanced limit 0)
    (hpos : 0 < m.world.config.backtrace.chunkSize) (name thread : String) (message : Option String)
    (free : Option Nat) :
    ((m.withLimit free).outOfMemory name thread message).2 =
      (m.outOfMemory name thread message).2.withLimit free := by
  simp only [Machine.outOfMemory, ensureThread_withLimit]
  have hensured := hm.ensureThread thread
  rw [← world_ensureThread m thread] at hpos
  generalize m.ensureThread thread = m at hensured hpos ⊢
  have hhanded : (m.withLimit free).world.outOfMemoryError (m.withLimit free).owners
      ((m.withLimit free).threadOf thread) message = _ :=
    Universe.outOfMemoryError_withLimit hensured.pool hpos free m.owners (m.threadOf thread) message
  rw [hhanded]
  exact putThrowable_withLimit { m with
    world := (m.world.outOfMemoryError m.owners (m.threadOf thread) message).2 } name _ free

/-- Without its limit `Machine.reserve` goes as under it, if its `TraceRequest.peak` fits. -/
private theorem reserve_withLimit (hm : m.Balanced limit 0) (hfree : Heap.Unlimited free)
    (name : String) (payload : Nat)
    (hroom : (TraceRequest.reserve name payload).peak (m.withLimit free) ≤ limit) :
    ((m.withLimit free).reserve name payload).2 = (m.reserve name payload).2.withLimit free := by
  have hreserved : (m.withLimit free).holdings.reserve (m.withLimit free).world.memory name payload =
    _ := Holdings.reserve_withLimit (hm.balanced.of_eq (Nat.zero_add _)) hfree m.holdings name hroom
  simp only [Machine.reserve, hreserved]
  rcases m.holdings.reserve m.world.memory name payload with ⟨e | n, holdings, memory⟩
  · rfl
  · rfl

/-- Without its limit `Machine.box` goes as under it, if its `TraceRequest.peak` fits. -/
private theorem box_withLimit (hm : m.Balanced limit 0) (hfree : Heap.Unlimited free)
    (name : String) (value : Bool)
    (hroom : (TraceRequest.box name value).peak (m.withLimit free) ≤ limit) :
    ((m.withLimit free).box name value).2 = (m.box name value).2.withLimit free := by
  have hboxed : (m.withLimit free).holdings.box (m.withLimit free).world.memory name value = _ :=
    Holdings.box_withLimit (hm.balanced.of_eq (Nat.zero_add _)) hfree m.holdings name hroom
  simp only [Machine.box, hboxed]
  rcases m.holdings.box m.world.memory name value with ⟨e | b, holdings, memory⟩
  · rfl
  · rfl

/-- While the throwable of a name is out of its table, the books of a `Machine.Balanced` machine are
    those of that throwable and of the rest. -/
private theorem paid_of_get? (hm : m.Balanced limit 0) {name : String} {t : Throwable}
    (hget : m.throwables.get? name = some t) :
    t.Paid limit m.world.config.backtrace.chunkSize (m.without name).held m.world.memory := by
  have hwithout := hm.without name
  rw [hget] at hwithout
  exact ⟨hwithout.balanced.of_eq (by simp), hm.priced hget⟩

namespace TraceRequest

/-- Without its limit `TraceRequest.perform` goes as under it, if `TraceRequest.peak` fits. -/
theorem perform_withLimit (hm : m.Balanced limit 0) (hfree : Heap.Unlimited free)
    (hpos : 0 < m.world.config.backtrace.chunkSize) (r : TraceRequest)
    (hroom : r.peak (m.withLimit free) ≤ limit) :
    r.perform (m.withLimit free) = (r.perform m).withLimit free := by
  -- Case by case over the requests; `hroom` is what the charge of each comes to
  cases r with
  | raise name cls message cause => exact raise_withLimit m name cls message cause free
  | setCause name cause => exact setCause_withLimit m name cause free
  | setMessage name message => exact setMessage_withLimit m name message free
  | drop name => exact dropThrowable_withLimit m name free
  | fill name thread method =>
    have hmethod : (m.withLimit free).resolveMethod = m.resolveMethod := rfl
    simp only [peak, hmethod] at hroom
    simp only [perform, Machine.fill, hmethod]
    split
    · rfl
    · rename_i method hresolved
      rw [hresolved] at hroom
      refine withThread_withLimit m name thread fun t hget => ?_
      have hpeak : (m.withLimit free).throwables.get? name = some t := hget
      simp only [throwablePeak, hpeak] at hroom
      exact Universe.fillInStackTrace_withLimit (paid_of_get? hm hget) hfree hpos hroom
  | refill name thread =>
    refine withThread_withLimit m name thread fun t hget => ?_
    exact Universe.refillStackTrace_withLimit (hm.priced hget) hpos free _ _
  | allocate name =>
    refine withThrowable_withLimit m name fun t hget => ?_
    have hpeak : (m.withLimit free).throwables.get? name = some t := hget
    simp only [peak, throwablePeak, hpeak] at hroom
    have hallocated :=
      Universe.allocateTrace_withLimit (paid_of_get? hm hget) hfree hpos hroom
    simp only [hallocated]
  | outOfMemory name thread message => exact outOfMemory_withLimit hm hpos name thread message free
  | reserve name payload => exact reserve_withLimit hm hfree name payload hroom
  | box name value => exact box_withLimit hm hfree name value hroom
  | free name =>
    have hfreed := m.holdings.free_withLimit m.world.memory name free
    exact congrArg (fun freed => { m with holdings := freed.2.1 }.setMemory freed.2.2) hfreed

/-- Under the limit, `TraceRequest.peak` fits by itself. -/
private theorem peak_le (hm : m.Balanced limit 0) (r : TraceRequest) : r.peak m ≤ limit := by
  have hheld : m.held ≤ limit := hm.held_le
  cases r with
  | fill name thread method =>
    simp only [peak]
    split
    · exact hheld
    · unfold throwablePeak
      split
      · exact hheld
      · rename_i hget
        exact Universe.fillPeak_le (paid_of_get? hm hget) _ _ _
  | allocate name =>
    simp only [peak]
    unfold throwablePeak
    split
    · exact hheld
    · rename_i hget
      exact Universe.allocatePeak_le (paid_of_get? hm hget)
  -- A grant is charged on top of what is held
  | reserve name payload =>
    exact (Memory.charges_allocate payload).granted_le (hm.balanced.of_eq (Nat.zero_add _)) _ rfl
  | box name value =>
    exact (Memory.charges_box value).granted_le (hm.balanced.of_eq (Nat.zero_add _)) _ rfl
  | _ => exact hheld

end TraceRequest

end WithLimit

/-! ## Runs -/

section Runs

variable {m : Machine} {config : RuntimeConfig} {limit : Nat} {requests : List Request}

/-- Under the limit all of `Machine.totals` fit by themselves. -/
private theorem le_of_mem_totals (hm : m.Balanced limit 0) (requests : List Request) :
    ∀ total ∈ m.totals requests, total ≤ limit := by
  induction requests generalizing m with
  | nil =>
    rw [totals, List.forall_mem_singleton]
    exact hm.held_le
  | cons r requests ih =>
    rw [totals, List.forall_mem_cons, List.forall_mem_cons]
    refine ⟨hm.held_le, ?_, ih (balanced_perform m r hm)⟩
    cases r with
    | code r => exact hm.held_le
    | trace r => exact r.peak_le hm

/-- `Machine.runTotals` stay within an exact limit, whatever is refused. -/
theorem le_of_mem_runTotals (hlimit : config.heap.limitBytes = some limit) (hword : limit < maxWord)
    (requests : List Request) : ∀ total ∈ runTotals config requests, total ≤ limit := by
  unfold runTotals
  split
  · exact nofun
  · rename_i u hu
    exact le_of_mem_totals (balanced_ofUniverse (Universe.balanced_genesis hlimit hword hu)) requests

variable {free : Option Nat}

/-- A machine that is `Machine.Balanced` under a limit has that limit already. -/
private theorem withLimit_of_balanced {hand : Nat} (hm : m.Balanced limit hand) :
    m.withLimit (some limit) = m := by
  rw [← hm.balanced.limit_eq]
  rfl

/-- `Machine.SameTraces` takes no notice of the limit. -/
private theorem SameTraces.withLimit {m' : Machine} (h : m.SameTraces m') (limit : Option Nat) :
    (m.withLimit limit).SameTraces (m'.withLimit limit) where
  world_eq := congrArg (·.withLimit limit) h.world_eq
  throwables_eq := h.throwables_eq
  holdings_eq := h.holdings_eq

/-- One request to a machine without a limit, whose `Machine.peak` fits under some limit.  It leads where it
    would have led from a machine under that limit, and the books of that one balance. -/
private theorem limited_perform (hm : m.Balanced limit 0) (hfree : Heap.Unlimited free)
    (hpos : 0 < m.world.config.backtrace.chunkSize) (r : Request)
    (hroom : (m.withLimit free).peak r ≤ limit) :
    ∃ m' : Machine, (m.withLimit free).perform r = m'.withLimit free ∧ m'.Balanced limit 0 ∧
      m'.world.config = m.world.config := by
  cases r with
  | code r =>
    -- The memory is as it was, so its limit can be put back
    have hsame := (r.sameTraces (m.withLimit free)).withLimit (some limit)
    have hback : (m.withLimit free).withLimit (some limit) = m := withLimit_of_balanced hm
    rw [hback] at hsame
    refine ⟨(r.perform (m.withLimit free)).withLimit (some limit), ?_, hm.sameTraces hsame,
      (congrArg Universe.config hsame.world_eq).trans rfl⟩
    have hlifted : (r.perform (m.withLimit free)).world =
        ((r.perform (m.withLimit free)).world.withLimit (some limit)).withLimit free := by
      rw [(r.sameTraces (m.withLimit free)).world_eq]
      rfl
    exact congrArg (fun world => { r.perform (m.withLimit free) with world }) hlifted
  | trace r =>
    obtain ⟨memory, pool, hworld, -⟩ := (r.sameCode m).world_eq
    exact ⟨r.perform m, r.perform_withLimit hm hfree hpos hroom, r.balanced hm,
      (congrArg Universe.config hworld).trans rfl⟩

/-- Requests to a machine without a limit, whose `Machine.totals` fit under some limit. -/
private theorem limited_performAll (hm : m.Balanced limit 0) (hfree : Heap.Unlimited free)
    (hpos : 0 < m.world.config.backtrace.chunkSize) (requests : List Request)
    (hroom : ∀ total ∈ (m.withLimit free).totals requests, total ≤ limit) :
    ∃ m' : Machine, (m.withLimit free).performAll requests = m'.withLimit free ∧
      m'.Balanced limit 0 := by
  -- Induction on the requests, with the machine under the limit as what carries the books
  induction requests generalizing m with
  | nil => exact ⟨m, rfl, hm⟩
  | cons r requests ih =>
    rw [totals, List.forall_mem_cons, List.forall_mem_cons] at hroom
    obtain ⟨-, hpeak, hrest⟩ := hroom
    obtain ⟨m', hperform, hm', hconfig⟩ := limited_perform hm hfree hpos r hpeak
    rw [hperform] at hrest
    obtain ⟨m'', hperformAll, hm''⟩ := ih hm' (hconfig ▸ hpos) hrest
    refine ⟨m'', ?_, hm''⟩
    rw [← hperformAll, ← hperform]
    rfl

/-- A run without a limit leads where it would have led under one that leaves room for `Machine.runTotals`,
    and there the books balance. -/
theorem balanced_withLimit_of_run (hfree : Heap.Unlimited config.heap.limitBytes)
    (hword : limit < maxWord) (h : run config requests = .ok m)
    (hroom : ∀ total ∈ runTotals config requests, total ≤ limit) :
    (m.withLimit (some limit)).Balanced limit 0 := by
  unfold run at h
  unfold runTotals at hroom
  split at h
  · cases h
  · rename_i u hgenesis
    cases h
    simp only [hgenesis] at hroom
    -- The first total is what the prepared errors hold
    have hpooled : u.pooled ≤ limit := by
      have hfirst : (ofUniverse u).held ∈ (ofUniverse u).totals requests := by
        cases requests with
        | nil => exact List.mem_singleton_self _
        | cons r requests => exact List.mem_cons_self
      have hheld : (ofUniverse u).held = u.pooled := rfl
      exact hheld ▸ hroom _ hfirst
    obtain ⟨v, rfl, hv, hpos⟩ := Universe.genesis_withLimit hfree hword hgenesis hpooled
    obtain ⟨m', hperform, hm'⟩ :=
      limited_performAll (m := ofUniverse v) (balanced_ofUniverse hv) hfree hpos requests hroom
    have hback : (m'.withLimit config.heap.limitBytes).withLimit (some limit) = m' :=
      withLimit_of_balanced hm'
    rw [show (ofUniverse (v.withLimit config.heap.limitBytes)).performAll requests = _ from hperform,
      hback]
    exact hm'

/-- No run leaks memory or gives it back twice, as long as its exact totals (`Machine.runTotals`) stay below
    the largest word.  What is charged after any requests, succeeded or failed, is the price of the
    stores that are owned, of all their chunks, linked or not, and of their markers, and what is reserved
    and boxed by name.  It is within the limit, and zero when nothing is owned. -/
theorem used_of_run (h : run config requests = .ok m)
    (hexact : ∀ total ∈ runTotals config requests, total < maxWord) :
    m.world.memory.heap.used =
      (m.stores.map (Store.price config.backtrace.chunkSize)).sum + m.holdings.held ∧
    (∀ limit, config.heap.limitBytes = some limit → m.world.memory.heap.used ≤ limit) ∧
    (m.stores = [] → m.holdings.reservations.values = [] → m.holdings.boxes.values = [] →
      m.world.memory.heap.used = 0) := by
  -- Some exact limit makes no difference: the one that is set, or the greatest that there is
  obtain ⟨limit, hbalanced, hleast⟩ : ∃ limit, (m.withLimit (some limit)).Balanced limit 0 ∧
      ∀ configured, config.heap.limitBytes = some configured → limit ≤ configured := by
    by_cases hset : ∃ configured < maxWord, config.heap.limitBytes = some configured
    · obtain ⟨configured, hword, hconfigured⟩ := hset
      have hm := balanced_of_run hconfigured hword h
      refine ⟨configured, (withLimit_of_balanced hm).symm ▸ hm, fun other hother => ?_⟩
      exact Nat.le_of_eq (Option.some.inj (hconfigured.symm.trans hother))
    · have hfree : Heap.Unlimited config.heap.limitBytes := fun configured hconfigured =>
        Nat.le_of_not_lt fun hword => hset ⟨configured, hword, hconfigured⟩
      refine ⟨maxWord - 1, balanced_withLimit_of_run hfree (by decide) h fun total htotal => ?_,
        fun configured hconfigured => Nat.le_trans (Nat.sub_le _ _) (hfree configured hconfigured)⟩
      exact Nat.le_sub_one_of_lt (hexact total htotal)
  have hused : m.world.memory.heap.used = m.held :=
    hbalanced.balanced.used_eq.trans (Nat.zero_add m.held)
  have hle : m.world.memory.heap.used ≤ limit := hbalanced.balanced.used_le
  have hword := hbalanced.balanced.limit_lt
  have hpriced : ∀ s ∈ m.stores, s.PricedAt config.backtrace.chunkSize := by
    intro s hs
    obtain ⟨t, ht, hst⟩ := List.mem_flatMap.mp hs
    rw [← config_of_run h]
    rcases List.mem_append.mp ht with ht | ht
    · exact (hbalanced.pool t ht).stores s hst
    · exact (hbalanced.throwables t ht).stores s hst
  have hsum := held_eq_sum m
  have hprices := Store.sum_held_eq_sum_price hpriced (by omega)
  refine ⟨by omega, fun configured hconfigured => ?_, fun hstores hreservations hboxes => ?_⟩
  · exact Nat.le_trans hle (hleast configured hconfigured)
  · rw [hused, hsum, hstores, Holdings.held, hreservations, hboxes]
    rfl

end Runs

/-- Chunks of eight slots, and not much room for them. -/
def smallHeap : RuntimeConfig :=
  { backtrace := { chunkSize := 8, preallocatedErrors := 1 }, heap := { limitBytes := some 1200 } }

/-- `smallHeap` without its limit. -/
def wideHeap : RuntimeConfig := { smallHeap with heap := { limitBytes := none } }

/-- The prepared error is handed out and becomes a cause.  Another trace is set up, filled, and captured
    anew, and memory is reserved.  Then more is reserved in its place, which `smallHeap` refuses, and
    one more trace is dropped again. -/
def exhaust : List Request :=
  [.code (.define { name := "acme/Widget", methods := [{ name := "run" }] }),
    .code (.push "main"
      [(.entry, 1), (.interpreted (.numbered (.loaded "acme/Widget") 0 0) 0, 1)]),
    .trace (.outOfMemory "exhausted" "main" none),
    .trace (.raise "failure" (.loaded Universe.errorName) none (some "exhausted")),
    .trace (.allocate "failure"), .trace (.refill "failure" "main"),
    .trace (.fill "failure" "worker" (some (.numbered (.loaded "acme/Widget") 0 0))),
    .trace (.reserve "buffer" 100), .trace (.reserve "buffer" 1000), .trace (.box "flag" true),
    .trace (.raise "other" (.loaded Universe.errorName) none none),
    .trace (.allocate "other"), .trace (.drop "other")]

/-- `used_of_run` for `exhaust`: two stores of one chunk are left, a reservation and a box.  The small
    heap has kept the first reservation, and the one without a limit the second. -/
theorem used_of_run_exhaust :
    (∃ m, run smallHeap exhaust = .ok m ∧ m.stores.length = 2 ∧
      m.world.memory.heap.used = 2 * (30 * 8 + 32) + (100 + 16) + 17 ∧
      m.world.memory.heap.used ≤ 1200) ∧
    ∃ m, run wideHeap exhaust = .ok m ∧ m.stores.length = 2 ∧
      m.world.memory.heap.used = 2 * (30 * 8 + 32) + (1000 + 16) + 17 := by
  constructor
  · have howned : ((run smallHeap exhaust).toOption.any fun m => m.stores.length == 2 &&
        (m.stores.map (Store.price 8)).sum == 544 && m.holdings.held == 133) = true := by
      decide +kernel
    obtain ⟨m, hrun, howned⟩ := exists_run_of_any howned
    simp only [Bool.and_eq_true, beq_iff_eq] at howned
    obtain ⟨⟨hcount, hstores⟩, hholdings⟩ := howned
    -- The limit keeps the totals below the largest word
    have htotals : ∀ total ∈ runTotals smallHeap exhaust, total ≤ 1200 :=
      le_of_mem_runTotals rfl (by decide) exhaust
    obtain ⟨hused, hlimit, -⟩ :=
      used_of_run hrun fun total htotal => Nat.lt_of_le_of_lt (htotals total htotal) (by decide)
    have hprices : (m.stores.map (Store.price smallHeap.backtrace.chunkSize)).sum = 544 := hstores
    exact ⟨m, hrun, hcount, by omega, hlimit 1200 rfl⟩
  · have howned : ((run wideHeap exhaust).toOption.any fun m => m.stores.length == 2 &&
        (m.stores.map (Store.price 8)).sum == 544 && m.holdings.held == 1033) = true := by
      decide +kernel
    obtain ⟨m, hrun, howned⟩ := exists_run_of_any howned
    simp only [Bool.and_eq_true, beq_iff_eq] at howned
    obtain ⟨⟨hcount, hstores⟩, hholdings⟩ := howned
    -- Nothing keeps them there but the requests themselves
    obtain ⟨hused, -⟩ := used_of_run hrun (by decide +kernel)
    have hprices : (m.stores.map (Store.price wideHeap.backtrace.chunkSize)).sum = 544 := hstores
    exact ⟨m, hrun, hcount, by omega⟩

end StackTrace.Machine
