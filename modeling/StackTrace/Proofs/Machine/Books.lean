import StackTrace.Proofs.Capture.Books
import StackTrace.Proofs.Machine.Requests

/-!
# The books of a machine

Through every run the bytes charged to the heap are those that its owners hold: the prepared errors,
the throwables with their causes, and what is reserved or boxed by name.  Nothing leaks, whatever
fails on the way, and nothing is given back twice.

While a request carries a throwable from one place to another, it is *at hand*: what it holds is
charged, and no table has it.

## Key results

- `Machine.TraceRequest.balanced`: every request keeps the books
- `Machine.balanced_of_run`: the books after a run under an exact limit
- `Machine.held_eq_sum`: what a machine holds, store by store
-/

namespace StackTrace

namespace Machine

/-- The bytes that a machine holds: `Universe.pooled`, those of its throwables, and what is held by
    name. -/
def held (m : Machine) : Nat :=
  m.world.pooled + (m.throwables.values.map Throwable.held).sum + m.holdings.held

/-- A machine holds what is charged, but for `hand` bytes that are at hand. -/
structure Balanced (limit hand : Nat) (m : Machine) : Prop where
  balanced : m.world.memory.heap.Balanced limit (hand + m.held)
  pool : ∀ t ∈ m.world.pool, t.PricedAt m.world.config.backtrace.chunkSize
  throwables : ∀ t ∈ m.throwables.values, t.PricedAt m.world.config.backtrace.chunkSize

variable {m : Machine} {limit hand : Nat} {name : String} {t : Throwable}

/-- A machine that is `Balanced` holds no more than the limit allows. -/
theorem Balanced.held_le (h : m.Balanced limit hand) : m.held ≤ limit :=
  Nat.le_trans (Nat.le_add_left m.held hand) h.balanced.bytes_le

/-! ## Moving a throwable -/

/-- `Machine.held` is what the throwable of a name holds and what is held without it. -/
private theorem held_without (m : Machine) (name : String) :
    m.held = ((m.throwables.get? name).map Throwable.held).getD 0 + (m.without name).held := by
  have hsum := m.throwables.sum_values name Throwable.held
  simp only [held, without]
  omega

/-- `Machine.held` with a throwable put under a name. -/
private theorem held_holding (m : Machine) (name : String) (t : Throwable) :
    (m.holding name t).held = t.held + (m.without name).held := by
  simp only [held, without, holding, Table.values_insert, List.map_cons, List.sum_cons]
  omega

namespace Balanced

/-- `Machine.without` leaves at hand what was in the table under the name. -/
theorem without (h : m.Balanced limit hand) (name : String) : (m.without name).Balanced limit
    (((m.throwables.get? name).map Throwable.held).getD 0 + hand) := by
  refine ⟨h.balanced.of_eq ?_, h.pool, fun t ht => h.throwables t (Table.mem_values_of_mem_erase ht)⟩
  rw [held_without m name]
  omega

/-- In a machine that is `Balanced` every throwable in the table has its price. -/
theorem priced (h : m.Balanced limit hand) (hget : m.throwables.get? name = some t) :
    t.PricedAt m.world.config.backtrace.chunkSize :=
  h.throwables t (Table.mem_values_of_get? hget)

/-- `Machine.holding` puts what is at hand into the table. -/
private theorem holding (h : (m.without name).Balanced limit (t.held + hand))
    (ht : t.PricedAt m.world.config.backtrace.chunkSize) :
    (m.holding name t).Balanced limit hand := by
  refine ⟨h.balanced.of_eq ?_, h.pool, fun t' ht' => ?_⟩
  · rw [held_holding]
    omega
  · rcases List.mem_cons.mp ht' with rfl | ht'
    · exact ht
    · exact h.throwables t' ht'

/-- `Memory.releaseAll` gives back what is at hand. -/
private theorem release {rs : List Reservation} (h : m.Balanced limit (Heap.total rs + hand)) :
    (m.setMemory (m.world.memory.releaseAll rs)).Balanced limit hand :=
  ⟨(h.balanced.of_eq (Nat.add_assoc ..)).releaseAll, h.pool, h.throwables⟩

/-- `Machine.dropThrowable` keeps the books: what was held under the name is given back. -/
private theorem dropThrowable (h : m.Balanced limit hand) (name : String) :
    (m.dropThrowable name).2.Balanced limit hand := by
  have hwithout := h.without name
  cases hget : m.throwables.get? name with
  | none =>
    rw [dropThrowable_of_none hget]
    rw [hget] at hwithout
    simpa using hwithout
  | some t =>
    rw [dropThrowable_of_some hget]
    rw [hget] at hwithout
    exact release hwithout

/-- `Machine.dropThrowable` leaves nothing under the name. -/
private theorem get?_dropThrowable (m : Machine) (name : String) :
    (m.dropThrowable name).2.throwables.get? name = none := by
  have herased : (m.throwables.erase name).get? name = none := by simp
  cases hget : m.throwables.get? name with
  | none =>
    rw [dropThrowable_of_none hget]
    exact herased
  | some t =>
    rw [dropThrowable_of_some hget]
    exact herased

/-- `Machine.dropThrowable` leaves the settings alone. -/
private theorem config_dropThrowable (m : Machine) (name : String) :
    (m.dropThrowable name).2.world.config = m.world.config := by
  obtain ⟨memory, hworld⟩ := (SameRuntime.dropThrowable m name).world_eq
  rw [hworld]

/-- `Machine.putThrowable` puts a throwable at hand in the place of one in the table, which is
    dropped. -/
private theorem putThrowable (h : m.Balanced limit (t.held + hand)) (name : String)
    (ht : t.PricedAt m.world.config.backtrace.chunkSize) :
    (m.putThrowable name t).Balanced limit hand := by
  have hdropped := (h.dropThrowable name).without name
  rw [get?_dropThrowable, Option.map_none, Option.getD_none, Nat.zero_add] at hdropped
  rw [putThrowable_eq]
  apply hdropped.holding
  rw [config_dropThrowable]
  exact ht

/-- `Machine.ensureThread` charges nothing. -/
theorem ensureThread (h : m.Balanced limit hand) (name : String) :
    (m.ensureThread name).Balanced limit hand := by
  unfold Machine.ensureThread
  split
  · exact h
  · exact ⟨h.balanced, h.pool, h.throwables⟩

/-- `Machine.withThrowable` keeps the books of the machine if the action keeps those of the
    throwable. -/
private theorem withThrowable (h : m.Balanced limit hand) (name : String)
    {action : Universe → List ClassId → Throwable →
      Except (Failure TraceError) Nat × Throwable × Universe}
    (haction : ∀ (u : Universe) others t rest,
      t.Paid limit u.config.backtrace.chunkSize rest u.memory →
      (action u others t).2.1.Paid limit u.config.backtrace.chunkSize rest
        (action u others t).2.2.memory)
    (hworld : ∀ u others t, ∃ memory, (action u others t).2.2 = { u with memory }) :
    (m.withThrowable name action).2.Balanced limit hand := by
  have hwithout := h.without name
  rw [withThrowable_eq]
  split
  · rename_i hget
    rw [hget] at hwithout
    simpa using hwithout
  · rename_i t hget
    rw [hget] at hwithout
    -- The throwable is out of its table while the action runs, and the others hold the rest
    have hpaid : t.Paid limit m.world.config.backtrace.chunkSize (hand + (m.without name).held)
        m.world.memory := by
      refine ⟨hwithout.balanced.of_eq ?_, h.priced hget⟩
      exact Nat.add_assoc ..
    have hacted := haction _ (m.without name).owners _ _ hpaid
    -- The throwable goes back, and what is held elsewhere counts as it did
    obtain ⟨memory, hmemory⟩ := hworld m.world (m.without name).owners t
    rw [hmemory] at hacted ⊢
    exact holding ⟨hacted.balanced.of_eq (Nat.add_assoc ..).symm, h.pool, hwithout.throwables⟩
      hacted.priced

/-- `Machine.withThread` keeps the books of the machine if the action keeps those of the throwable. -/
private theorem withThread (h : m.Balanced limit hand) (name thread : String)
    {action : ManagedThread → Universe → List ClassId → Throwable →
      Except (Failure TraceError) Nat × Throwable × Universe}
    (haction : ∀ stack (u : Universe) others t rest,
      t.Paid limit u.config.backtrace.chunkSize rest u.memory →
      (action stack u others t).2.1.Paid limit u.config.backtrace.chunkSize rest
        (action stack u others t).2.2.memory)
    (hworld : ∀ stack u others t, ∃ memory, (action stack u others t).2.2 = { u with memory }) :
    (m.withThread name thread action).2.Balanced limit hand := by
  unfold Machine.withThread
  simp only
  split
  · exact (h.ensureThread thread).withThrowable name (haction _) (hworld _)
  · exact h.withThrowable name (haction _) (hworld _)

/-- `Holdings` may change along with the memory, if the books of the two balance. -/
private theorem withHoldings (h : m.Balanced limit hand) {holdings : Holdings} {memory : Memory}
    (hmemory : ∀ rest, m.world.memory.heap.Balanced limit (m.holdings.held + rest) →
      memory.heap.Balanced limit (holdings.held + rest)) :
    ({ m with holdings }.setMemory memory).Balanced limit hand := by
  have hbefore : m.world.memory.heap.Balanced limit (m.holdings.held +
      (hand + m.world.pooled + (m.throwables.values.map Throwable.held).sum)) := by
    refine h.balanced.of_eq ?_
    simp only [held]
    omega
  refine ⟨(hmemory _ hbefore).of_eq ?_, h.pool, h.throwables⟩
  have hheld : ({ m with holdings }.setMemory memory).held =
      m.world.pooled + (m.throwables.values.map Throwable.held).sum + holdings.held := rfl
  omega

end Balanced

/-! ## Requests -/

/-- What leaves memory and traces alone (`Machine.SameTraces`) keeps the books. -/
theorem Balanced.sameTraces {m' : Machine} (h : m.Balanced limit hand) (hsame : m.SameTraces m') :
    m'.Balanced limit hand := by
  obtain ⟨hworld, hthrowables, hholdings⟩ := hsame
  have hheld : m'.held = m.held := by
    rw [held, held, hworld, hthrowables, hholdings]
    rfl
  constructor
  · rw [hheld, hworld]
    exact h.balanced
  · rw [hworld]
    exact h.pool
  · rw [hworld, hthrowables]
    exact h.throwables

/-- `Throwable.new` holds nothing. -/
private theorem pricedAt_new (cls : ClassId) (message : Option String) (chunkSize : Nat) :
    (Throwable.new cls message).PricedAt chunkSize :=
  Throwable.pricedAt_of_untraced rfl chunkSize

namespace Balanced

/-- `Machine.raise` keeps the books: the new throwable holds nothing, and what its cause held is held by
    it, then. -/
private theorem raise (h : m.Balanced limit 0) (name : String) (cls : ClassRef)
    (message cause : Option String) : (m.raise name cls message cause).2.Balanced limit 0 := by
  simp only [Machine.raise, takeThrowable_eq]
  split
  · exact h
  · rename_i c _
    have hnew := pricedAt_new c.id message m.world.config.backtrace.chunkSize
    split
    · exact putThrowable (t := Throwable.new c.id message) h name hnew
    · rename_i cause
      have hwithout := h.without cause
      cases hget : m.throwables.get? cause with
      | none =>
        rw [hget] at hwithout
        exact hwithout
      | some inner =>
        rw [hget] at hwithout
        -- What the cause holds is at hand, between the two tables
        refine putThrowable ?_ name (hnew.withCause (h.priced hget))
        have hcaused : ((Throwable.new c.id message).withCause inner).held = inner.held := by
          rw [Throwable.held_withCause]
          exact Nat.zero_add _
        rw [hcaused]
        exact hwithout

/-- `Machine.setCause` gives back the causes that a throwable had before, and the new one if there is
    nothing that it could be the cause of. -/
private theorem setCause (h : m.Balanced limit 0) (name cause : String) :
    (m.setCause name cause).2.Balanced limit 0 := by
  simp only [Machine.setCause, takeThrowable_eq]
  have hwithout := h.without cause
  cases hcause : m.throwables.get? cause with
  | none =>
    rw [hcause] at hwithout
    exact hwithout
  | some inner =>
    rw [hcause] at hwithout
    simp only
    split
    -- Without a throwable of that name the cause is dropped
    · exact release hwithout
    · rename_i t hget
      -- Both are out of the table, so what they hold is at hand, and the old causes can be given back
      have hboth := hwithout.without name
      rw [hget] at hboth
      have hheld : t.held + inner.held = Heap.total (t.causes.flatMap Condition.reservations) +
          (t.withCause inner).held := by
        rw [Throwable.held_eq, Throwable.held_withCause]
        omega
      have hhand : ((m.without cause).without name).Balanced limit
          (Heap.total (t.causes.flatMap Condition.reservations) + (t.withCause inner).held) := by
        rw [← hheld]
        exact hboth
      exact holding (release hhand) ((hwithout.priced hget).withCause (h.priced hcause))

/-- `Machine.setMessage` charges nothing, as a message is not on the heap. -/
private theorem setMessage (h : m.Balanced limit 0) (name : String) (message : Option String) :
    (m.setMessage name message).2.Balanced limit 0 := by
  unfold Machine.setMessage
  split
  · exact h
  · rename_i t hget
    have hwithout := h.without name
    rw [hget] at hwithout
    exact holding hwithout ((h.priced hget).sameTrace rfl)

/-- `Machine.outOfMemory` passes a prepared error out of the pool and into the table. -/
private theorem outOfMemory (h : m.Balanced limit 0) (name thread : String) (message : Option String) :
    (m.outOfMemory name thread message).2.Balanced limit 0 := by
  simp only [Machine.outOfMemory]
  have hensured := h.ensureThread thread
  -- Of the thread that is made nothing is needed but that it holds nothing
  generalize m.ensureThread thread = m at hensured ⊢
  have hworld : m.world.Balanced limit
      ((m.throwables.values.map Throwable.held).sum + m.holdings.held) := by
    refine ⟨hensured.balanced.of_eq ?_, hensured.pool⟩
    simp only [held]
    omega
  obtain ⟨hout, hpriced⟩ :=
    Universe.balanced_outOfMemoryError hworld m.owners (m.threadOf thread) message
  obtain ⟨memory, pool, hleft, -⟩ :=
    Universe.world_outOfMemoryError m.world m.owners (m.threadOf thread) message
  rw [hleft] at hout ⊢
  refine putThrowable (m := { m with world := { m.world with memory, pool } })
    ⟨hout.balanced.of_eq ?_, hout.priced, hensured.throwables⟩ name hpriced
  simp only [held]
  omega

/-- `Machine.reserve` keeps the books, whether it is granted or refused. -/
private theorem reserve (h : m.Balanced limit hand) (name : String) (payload : Nat) :
    (m.reserve name payload).2.Balanced limit hand := by
  have hreserved : ({ m with
        holdings := (m.holdings.reserve m.world.memory name payload).2.1 }.setMemory
      (m.holdings.reserve m.world.memory name payload).2.2).Balanced limit hand :=
    h.withHoldings fun rest hrest => Holdings.balanced_reserve hrest name payload
  unfold Machine.reserve
  split
  · rename_i heq
    rw [heq] at hreserved
    exact hreserved
  · rename_i heq
    rw [heq] at hreserved
    exact hreserved

/-- `Machine.box` keeps the books, whether it is granted or refused. -/
private theorem box (h : m.Balanced limit hand) (name : String) (value : Bool) :
    (m.box name value).2.Balanced limit hand := by
  have hboxed : ({ m with
        holdings := (m.holdings.box m.world.memory name value).2.1 }.setMemory
      (m.holdings.box m.world.memory name value).2.2).Balanced limit hand :=
    h.withHoldings fun rest hrest => Holdings.balanced_box hrest name value
  unfold Machine.box
  split
  · rename_i heq
    rw [heq] at hboxed
    exact hboxed
  · rename_i heq
    rw [heq] at hboxed
    exact hboxed

end Balanced

/-- `TraceRequest.perform` keeps the books, whether the request succeeds or fails. -/
theorem TraceRequest.balanced (h : m.Balanced limit 0) (r : TraceRequest) :
    (r.perform m).Balanced limit 0 := by
  cases r with
  | raise name cls message cause => exact h.raise name cls message cause
  | setCause name cause => exact h.setCause name cause
  | setMessage name message => exact h.setMessage name message
  | drop name => exact h.dropThrowable name
  | fill name thread method =>
    simp only [perform, Machine.fill]
    split
    · exact h
    · exact h.withThread name thread
        (fun stack _ others _ _ ht => Universe.paid_fillInStackTrace ht others stack _)
        fun stack u others t => u.world_fillInStackTrace others t stack _
  | refill name thread =>
    exact h.withThread name thread
      (fun stack _ others _ _ ht => Universe.paid_refillStackTrace ht others stack)
      fun stack u others t => u.world_refillStackTrace others t stack
  | allocate name =>
    exact h.withThrowable name (fun _ _ _ _ ht => Universe.paid_allocateTrace ht)
      fun u _ t => u.world_allocateTrace t
  | outOfMemory name thread message => exact h.outOfMemory name thread message
  | reserve name payload => exact h.reserve name payload
  | box name value => exact h.box name value
  | free name => exact h.withHoldings fun rest hrest => Holdings.balanced_free hrest name

/-- `Machine.perform` keeps the books. -/
theorem balanced_perform (m : Machine) (r : Request) (h : m.Balanced limit 0) :
    (m.perform r).Balanced limit 0 := by
  cases r with
  | code r => exact h.sameTraces (r.sameTraces m)
  | trace r => exact r.balanced h

/-! ## Runs -/

section Runs

variable {config : RuntimeConfig} {requests : List Request}

/-- `Machine.ofUniverse` holds what the prepared errors do. -/
theorem balanced_ofUniverse {u : Universe} (hu : u.Balanced limit 0) :
    (ofUniverse u).Balanced limit 0 :=
  ⟨hu.balanced.of_eq (Nat.add_comm ..), hu.priced, nofun⟩

/-- `Machine.run` leads to `Balanced` states under an exact limit. -/
theorem balanced_of_run (hlimit : config.heap.limitBytes = some limit) (hword : limit < maxWord)
    (h : run config requests = .ok m) : m.Balanced limit 0 :=
  of_run (fun _ hu => balanced_ofUniverse (Universe.balanced_genesis hlimit hword hu))
    balanced_perform h

/-- `Machine.run` never changes the settings of the runtime. -/
theorem config_of_run (h : run config requests = .ok m) : m.world.config = config := by
  refine of_run (P := fun m => m.world.config = config) (fun u hu => ?_) (fun m r hm => ?_) h
  · exact Universe.config_genesis hu
  · cases r with
    | code r => exact (congrArg Universe.config (r.sameTraces m).world_eq).trans hm
    | trace r =>
      obtain ⟨memory, pool, hworld, -⟩ := (r.sameCode m).world_eq
      exact (congrArg Universe.config hworld).trans hm

/-- The stores that a machine owns: those of the prepared errors and of the throwables, and of what
    caused them (`Throwable.stores`). -/
def stores (m : Machine) : List Store :=
  (m.world.pool ++ m.throwables.values).flatMap Throwable.stores

/-- `Machine.held` is what the stores hold, one by one, and what is held by name. -/
theorem held_eq_sum (m : Machine) :
    m.held = (m.stores.map Store.held).sum + m.holdings.held := by
  have hthrowables : ∀ ts : List Throwable,
      ((ts.flatMap Throwable.stores).map Store.held).sum = (ts.map Throwable.held).sum := by
    intro ts
    induction ts with
    | nil => rfl
    | cons t ts ih =>
      rw [List.flatMap_cons, List.map_append, List.sum_append_nat, ih, List.map_cons, List.sum_cons,
        Throwable.held_eq_sum]
  rw [stores, hthrowables, List.map_append, List.sum_append_nat]
  rfl

end Runs

end Machine

end StackTrace
