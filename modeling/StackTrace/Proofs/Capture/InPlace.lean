import StackTrace.Proofs.Capture.Fill
import StackTrace.Proofs.Capture.Prepared
import StackTrace.Proofs.Store.Leftovers

/-!
# Filling a trace in place

The store of a throwable is filled again from its first slot on, whatever trace it has held: an empty
one, or that of a capture with many chunks and a marker.  What is recorded is the front of the walk,
unfiltered, up to the first chunk's capacity or to what the walk cannot go past.  Behind the last frame
written the trace ends, even if recording has failed.

The store itself keeps classes alive while it is overwritten, so a class that nothing else keeps alive
may be gone by the time the walk comes to it.  On a stack that runs no such class, what can be visited
is settled before the first frame is written.

## Key results

- `Walk.take_storable`: what fills a chunk is the front of what the walk visits
- `Universe.AliveWithoutTrace`: that the store that is overwritten has no say in what is visited
- `Universe.refillStackTrace_in_place`: what becomes of the throwable, and how recording ends
-/

namespace StackTrace

/-! ## Two opinions of what is alive -/

namespace Walk

variable {w : Walk} {alive alive' : ClassId → Bool}

/-- `Walk.visited` depends only on which classes of its own activations are alive. -/
private theorem visited_congr
    (h : ∀ a ∈ w.activations, alive a.method.holder = alive' a.method.holder) :
    w.visited alive = w.visited alive' :=
  List.filter_congr h

/-- `Walk.storable` depends only on which classes of its own activations are alive. -/
private theorem storable_congr
    (h : ∀ a ∈ w.activations, alive a.method.holder = alive' a.method.holder) :
    w.storable alive = w.storable alive' := by
  rw [storable, storable, visited_congr h]

/-- `Walk.obstacle?` names the method of an index that cannot be stored, so the class of it
    counts, too. -/
private theorem obstacle?_congr (p : Program)
    (h : ∀ a ∈ w.activations, alive a.method.holder = alive' a.method.holder) :
    w.obstacle? p alive = w.obstacle? p alive' := by
  rw [obstacle?, obstacle?, visited_congr h]
  cases hfind : (w.visited alive').find? fun a => !Location.fits a.bci with
  | none => rfl
  | some a =>
    have ha : a ∈ w.activations := List.mem_of_mem_filter (List.mem_of_find?_eq_some hfind)
    simp only [Program.externalName, Program.holder, h a ha]

/-- `Walk.outcome` depends only on which classes of its own activations are alive. -/
private theorem outcome_congr (p : Program)
    (h : ∀ a ∈ w.activations, alive a.method.holder = alive' a.method.holder) (room : Nat) :
    w.outcome p alive room = w.outcome p alive' room := by
  rw [outcome, outcome, storable_congr h, obstacle?_congr p h]

/-- The front of `Walk.storable` that fits into a chunk is the front of `Walk.visited`. -/
theorem take_storable (w : Walk) (alive : ClassId → Bool) (n : Nat) :
    (w.storable alive).take n = (w.visited alive).take (min n (w.storable alive).length) := by
  have hfront : w.storable alive = (w.visited alive).take (w.storable alive).length :=
    List.prefix_iff_eq_take.mp (List.takeWhile_prefix _)
  rw [← List.take_take, ← hfront]

end Walk

/-! ## What the store at hand keeps alive -/

/-- After `Throwable.takeTrace` a throwable owns nothing that it did not own before. -/
private theorem Throwable.owners_takeTrace_subset (t : Throwable) : t.takeTrace.2.owners ⊆ t.owners :=
  Owns.clearTrace (P := (· ∈ t.owners)) (fun _ h => h) (Memory.ofLimit none)

namespace Universe

variable {u : Universe} {others : List ClassId} {t : Throwable} {s : Store}

/-- Each class of the activations `as` is kept alive by something else than the store of the throwable,
    if it is kept alive at all. -/
def AliveWithoutTrace (u : Universe) (others : List ClassId) (t : Throwable)
    (as : List Activation) : Prop :=
  ∀ a ∈ as, (u.owned (t.owners ++ others)).contains a.method.holder = true →
    (u.owned (t.takeTrace.2.owners ++ others)).contains a.method.holder = true

namespace AliveWithoutTrace

variable {as : List Activation}

/-- Under `Universe.AliveWithoutTrace` the trace has no say in which classes of the activations are
    alive. -/
private theorem contains_eq (h : u.AliveWithoutTrace others t as) {a : Activation} (ha : a ∈ as) :
    (u.owned (t.owners ++ others)).contains a.method.holder =
      (u.owned (t.takeTrace.2.owners ++ others)).contains a.method.holder := by
  have hsubset : u.roots ++ (t.takeTrace.2.owners ++ others) ⊆ u.roots ++ (t.owners ++ others) := by
    intro r hr
    simp only [List.mem_append] at hr ⊢
    exact hr.imp_right fun hr => hr.imp_left fun hr => t.owners_takeTrace_subset hr
  rw [Bool.eq_iff_iff]
  exact ⟨h a ha, u.program.contains_owned_mono hsubset⟩

/-- Under `Universe.AliveWithoutTrace` the store has no say in which of the activations are visited. -/
private theorem addsNone (h : u.AliveWithoutTrace others t as) (htrace : t.head.trace = some s) :
    s.Owns (u.program.AddsNone (u.owned (t.takeTrace.2.owners ++ others)) as) := by
  have howned : s.Owns (· ∈ t.owners) := Throwable.Owns.trace (fun _ h => h) htrace
  intro c hc f hf a ha hmem hlt
  refine h a ha ((u.program.contains_owned_iff _ _).mpr ⟨⟨f.holder, ?_, hmem⟩, hlt⟩)
  exact List.mem_append_right _ (List.mem_append_left _ (howned c hc f hf))

end AliveWithoutTrace

/-! ## The refill -/

section Refill

variable {thread : ManagedThread}

/-- On a stack with `Universe.AliveWithoutTrace`, what can be visited before the store is overwritten is
    what `Universe.refillStackTrace` records. -/
private theorem AliveWithoutTrace.refillStackTrace_eq
    (halive : u.AliveWithoutTrace others t (Walk.ofStack thread.stack).activations)
    (henabled : u.config.backtrace.enabled = true) (hp : u.program.Valid)
    (htrace : t.head.trace = some s) (hs : s.Usable) {alive : ClassId → Bool}
    (hcontains : alive = (u.owned (t.owners ++ others)).contains) {storable : List Activation}
    (hstorable : storable = (Walk.ofStack thread.stack).storable alive) :
    ∃ s' : Store, u.refillStackTrace others t thread =
        (((Walk.ofStack thread.stack).outcome u.program alive s.chunkSize).map fun _ =>
            min s.chunkSize storable.length,
          t.modifyHead ({ · with trace := some s', depth := min s.chunkSize storable.length }),
          { u with memory := u.memory.releaseAll (s.hiddenTop.map (·.reservation)).toList }) ∧
      s.RefilledWith u.program storable s' := by
  subst hcontains
  rw [Walk.storable_congr fun a ha => halive.contains_eq ha] at hstorable
  rw [Walk.outcome_congr u.program fun a ha => halive.contains_eq ha, hstorable]
  exact refillStackTrace_of_addsNone henabled hp others htrace hs thread (halive.addsNone htrace)

/-- `Universe.refillStackTrace` of a throwable, whatever its store has held and whoever prepared it, on
    a stack of which no class is kept alive by that store alone.  With room for as many frames as a
    chunk has, what is recorded are the first frames that the walk visits, up to the first index that
    cannot be stored.  If there was room for more, the obstacle behind them is reported: that index or,
    at the end of the walk, the error that has ended it.  Nothing is allocated, and
    `TraceError.outOfMemory` is never reported.  In any case the throwable has its store back, with the
    trace in the first chunk and without the marker, which is given back. -/
theorem refillStackTrace_in_place (henabled : u.config.backtrace.enabled = true)
    (hp : u.program.Valid) (htrace : t.head.trace = some s) (hs : s.Usable)
    (halive : u.AliveWithoutTrace others t (Walk.ofStack thread.stack).activations) :
    let walk := Walk.ofStack thread.stack
    let alive := (u.owned (t.owners ++ others)).contains
    let k := (walk.storable alive).length
    let n := min s.chunkSize k
    let (result, t', u') := u.refillStackTrace others t thread
    (∀ e, k < s.chunkSize → walk.obstacle? u.program alive = some e →
      result = .error (.error e)) ∧
    (s.chunkSize ≤ k ∨ walk.obstacle? u.program alive = none → result = .ok n) ∧
    (∀ e, result ≠ .error (.error (.outOfMemory e))) ∧
    u' = { u with memory := u.memory.releaseAll (s.hiddenTop.map (·.reservation)).toList } ∧
    u'.memory.heap.allocations = u.memory.heap.allocations ∧
    ∃ s', t' = t.modifyHead ({ · with trace := some s', depth := n }) ∧
      s'.reservations = s.chunks.toList.map (·.reservation) ∧ s'.chunkSize = s.chunkSize ∧
      List.Forall₂ u.program.Tells s'.frames ((walk.visited alive).take n) ∧
      s'.hasHiddenTop = false ∧ s'.chunkCount = 1 := by
  intro walk alive k n
  obtain ⟨s', hrefill, hrefilled⟩ :=
    halive.refillStackTrace_eq henabled hp htrace hs (rfl : alive = _) rfl
  -- The trace lies in the first chunk, as with any store that is filled again in place
  obtain ⟨b, m, -, hcount, hfinish⟩ := refillStackTrace_refills henabled others hs htrace thread
  rw [hrefill] at hfinish ⊢
  obtain rfl : s' = (b.finish m).1 := Option.some.inj hfinish
  refine ⟨fun e hk hobstacle => ?_, fun hend => ?_, fun e he => ?_, rfl,
    Heap.allocations_releaseAll _ _, _, rfl, hrefilled.reservations_eq, hrefilled.chunkSize_eq, ?_,
    hrefilled.hiddenTop_eq, hcount⟩
  · exact congrArg (Except.map _) (Walk.outcome_of_obstacle hk hobstacle)
  · exact congrArg (Except.map _) (Walk.outcome_of_end hend)
  · exact (Walk.isOfWalk_of_map_outcome he).elim
  · rw [← Walk.take_storable]
    exact hrefilled.frames_eq

end Refill

/-- `single`, when two chunks of two slots and a marker are charged. -/
def singleTraced : Universe := { single with memory := ⟨⟨none, 201, 3⟩, Safepoints.idle⟩ }

/-- An error that a capture has left with a trace of three frames, in the chunks of `singleTraced`. -/
def longTraced : Throwable :=
  let frame : StoredFrame := ⟨⟨0⟩, 2, ⟨458752⟩, ⟨"run", 5⟩⟩
  let trace : Store :=
    ⟨2, #[⟨2, #[frame, frame], some 1, ⟨92⟩⟩, ⟨2, #[frame], none, ⟨92⟩⟩], some ⟨true, ⟨17⟩⟩⟩
  ⟨{ cls := ⟨0⟩, message := none, trace := some trace, depth := 3, preallocated := false }, []⟩

/-- A thread that runs two methods of the class of `single`.  The index of the outer frame cannot be
    stored. -/
def overrunning : ManagedThread where
  name := "main"
  stack := [.interpreted ⟨⟨0⟩, 0, 2, 2, ⟨"run", 5⟩, ⟨"()V", 3⟩, {}, 9, []⟩ 7,
    .interpreted ⟨⟨0⟩, 0, 3, 3, ⟨"main", 6⟩, ⟨"()V", 3⟩, {}, 1, []⟩ 65536, .entry]

/-- `refillStackTrace_in_place` where the inner frame takes the place of the longer trace, and the outer
    one is reported. -/
theorem refillStackTrace_in_place_overrunning :
    (singleTraced.refillStackTrace [] longTraced overrunning).1 =
        .error (.error (.bciOutOfRange "acme.Fault.main" 65536)) ∧
      ∃ s', (singleTraced.refillStackTrace [] longTraced overrunning).2.1.head.trace = some s' ∧
        s'.frames.length = 1 ∧ s'.hasHiddenTop = false ∧ s'.chunkCount = 1 := by
  have hvalid : singleTraced.program.Valid := by
    refine ⟨fun {id c} hget => ?_, nofun⟩
    obtain ⟨hlt, rfl⟩ := Array.getElem?_eq_some_iff.mp hget
    obtain ⟨index⟩ := id
    obtain rfl : index = 0 := Nat.lt_one_iff.mp hlt
    rfl
  obtain ⟨s, htrace⟩ : ∃ s, longTraced.head.trace = some s := ⟨_, rfl⟩
  have husable : s.Usable := by
    cases htrace
    refine ⟨by decide, List.cons_ne_nil _ _, fun c hc => ?_⟩
    rcases List.mem_pair.mp hc with rfl | rfl
    · exact ⟨rfl, by decide⟩
    · exact ⟨rfl, by decide⟩
  have halive : singleTraced.AliveWithoutTrace [] longTraced
      (Walk.ofStack overrunning.stack).activations := by
    unfold AliveWithoutTrace
    decide +kernel
  obtain ⟨hstopped, -, -, -, -, s', ht, -, -, hframes, hhidden, hcount⟩ :=
    refillStackTrace_in_place (u := singleTraced) rfl hvalid htrace husable halive
  cases htrace
  refine ⟨hstopped _ (by decide +kernel) (by decide +kernel), s', congrArg (·.head.trace) ht, ?_,
    hhidden, hcount⟩
  exact hframes.length_eq.trans (by decide +kernel)

end Universe

end StackTrace
