import StackTrace.Proofs.Capture.Owners
import StackTrace.Proofs.Program.Growth
import StackTrace.Proofs.Program.Ownership
import StackTrace.Proofs.Store.History

/-!
# Errors that were prepared in advance

A prepared error has a store of one empty chunk.  When it is handed out, the store is filled with the
frames at the top of the stack, as many as the chunk has slots; so it needs no memory, and leaves the
memory exactly as it was.  What ends the walk early, an unreadable frame or an index that cannot be
stored, ends the recording and leaves the frames that are recorded by then.

A store that has held a trace is filled in the same way, if the classes that it alone keeps alive are none
that the walk comes to.

## Key results

- `Builder.Sound.push_of_room`: a push into a chunk that has room needs no memory
- `refillAll_of_room`: what is recorded of a walk while there is room, and how recording ends
- `Universe.refillStackTrace_of_addsNone`: what becomes of a store that keeps none of the visited classes
  alive by itself
- `Universe.refillStackTrace_ready`: what becomes of a prepared error that is handed out
- `Universe.pool_of_genesis`: the prepared errors at the start
-/

namespace StackTrace

namespace Builder

variable {b : Builder}

/-- The cursor of a `Builder.Sound` builder has not passed more slots than frames were written. -/
private theorem Sound.slot_le_depth (hb : b.Sound) : b.slot ≤ b.depth := by
  obtain ⟨full, last, spare, hshape, -⟩ := hb
  rw [hshape.depth_eq]
  exact Nat.le_add_left _ _

/-- While the first chunk has room, `Builder.push` does not look at the memory. -/
theorem Sound.push_of_room (hb : b.Sound) (hroom : b.depth < b.store.chunkSize) {bci : Int}
    (hfits : Location.fits bci = true) (holder : Class) (method : Method) :
    ∃ f, f.Records holder method bci ∧ (b.write f).written = b.written ++ [f] ∧
      (b.write f).Sound ∧ ∀ m, b.push m holder method bci = (.ok (), b.write f, m) := by
  obtain ⟨f, hrecords, hpush⟩ := push_of_fits hfits holder method
  have hslot : b.slot < b.store.chunkSize := Nat.lt_of_le_of_lt hb.slot_le_depth hroom
  obtain ⟨hsound, hwritten⟩ := (hb.ready hslot).write f
  exact ⟨f, hrecords, hwritten, hsound, fun m => by rw [hpush, if_pos hslot]⟩

/-- `Array.modify` of a chunk that leaves its reservation leaves all of them. -/
private theorem map_reservation_modify (cs : Array Chunk) (i : Nat) {g : Chunk → Chunk}
    (hg : ∀ c, (g c).reservation = c.reservation) :
    (cs.modify i g).toList.map (·.reservation) = cs.toList.map (·.reservation) := by
  rw [Array.toList_modify]
  apply List.ext_getElem?
  intro j
  rw [List.getElem?_map, List.getElem?_map, List.getElem?_modify]
  cases cs.toList[j]? with
  | none => rfl
  | some c =>
    simp only [Option.map_eq_map, Option.map_some]
    split
    · rw [hg]
    · rfl

/-- `Builder.write` puts a frame into what is charged already. -/
private theorem reservations_write (b : Builder) (f : StoredFrame) :
    (b.write f).store.reservations = b.store.reservations := by
  have hchunks := map_reservation_modify b.store.chunks b.current (g := (·.write b.slot f))
    fun c => by rw [Chunk.write_eq]
  exact congrArg (· ++ _) hchunks

/-- `Builder.finish` gives back nothing. -/
private theorem reservations_finish (b : Builder) (m : Memory) :
    (b.finish m).1.reservations = b.store.reservations := by
  cases hreuse : b.reuse with
  | true =>
    have hchunks := map_reservation_modify b.store.chunks b.current
      (g := ({ ·.clearFrom b.slot with next := none })) fun c => rfl
    rw [finish_of_reuse hreuse]
    exact congrArg (· ++ _) hchunks
  | false => rw [finish_of_new hreuse]

end Builder

/-! ## Filling one chunk -/

/-- The frame stores the activation, with the class that `Program.get?` finds for its method. -/
def Program.Tells (p : Program) (f : StoredFrame) (a : Activation) : Prop :=
  ∃ c, p.get? a.method.holder = some c ∧ f.Records c a.method a.bci

/-- The activations that `Walk.visited` has up to the first whose index cannot be stored. -/
def Walk.storable (w : Walk) (alive : ClassId → Bool) : List Activation :=
  (w.visited alive).takeWhile fun a => Location.fits a.bci

/-- What ends the recording of a whole walk: the first index that does not pass `Location.fits` or, if
    there is none, the error that has ended the walk. -/
def Walk.obstacle? (w : Walk) (p : Program) (alive : ClassId → Bool) : Option TraceError :=
  match (w.visited alive).find? fun a => !Location.fits a.bci with
  | some a => some (.bciOutOfRange (p.externalName alive a.method) a.bci)
  | none => w.error.map .debugInfo

/-- How recording ends that has room for `room` activations.  It does not look at what comes behind
    them. -/
def Walk.outcome (w : Walk) (p : Program) (alive : ClassId → Bool) (room : Nat) :
    Except (Failure TraceError) Unit :=
  if room ≤ (w.storable alive).length then .ok ()
  else
    match w.obstacle? p alive with
    | none => .ok ()
    | some e => .error (.error e)

/-- The walk has met something that it cannot read, or an index that cannot be stored: recording did not
    end at the limit of the heap, nor with a broken promise. -/
def Failure.IsOfWalk : Failure TraceError → Prop
  | .error (.debugInfo _) | .error (.bciOutOfRange _ _) => True
  | _ => False

namespace Walk

variable {p : Program} {alive : ClassId → Bool} {error : Option DebugInfo.Error} {a : Activation}

/-- `Walk.visited` passes over an activation whose class is gone. -/
private theorem visited_cons_of_gone (halive : alive a.method.holder = false) (as : List Activation) :
    visited ⟨a :: as, error⟩ alive = visited ⟨as, error⟩ alive := by
  simp only [visited, List.filter_cons, halive, Bool.false_eq_true, if_false]

/-- `Walk.visited` comes to an activation whose class is alive. -/
private theorem visited_cons_of_alive (halive : alive a.method.holder = true) (as : List Activation) :
    visited ⟨a :: as, error⟩ alive = a :: visited ⟨as, error⟩ alive := by
  simp only [visited, List.filter_cons, halive, if_true]

private theorem storable_nil : storable ⟨[], error⟩ alive = [] := rfl

/-- `Walk.storable` passes over an activation whose class is gone. -/
private theorem storable_cons_of_gone (halive : alive a.method.holder = false) (as : List Activation) :
    storable ⟨a :: as, error⟩ alive = storable ⟨as, error⟩ alive := by
  rw [storable, visited_cons_of_gone halive]
  rfl

/-- `Walk.storable` has an activation whose class is alive, if its index fits. -/
private theorem storable_cons_of_fits (halive : alive a.method.holder = true)
    (hfits : Location.fits a.bci = true) (as : List Activation) :
    storable ⟨a :: as, error⟩ alive = a :: storable ⟨as, error⟩ alive := by
  rw [storable, visited_cons_of_alive halive, List.takeWhile_cons, hfits, if_pos rfl]
  rfl

/-- `Walk.storable` ends in front of an index that does not fit. -/
private theorem storable_cons_of_not_fits (halive : alive a.method.holder = true)
    (hfits : Location.fits a.bci = false) (as : List Activation) :
    storable ⟨a :: as, error⟩ alive = [] := by
  rw [storable, visited_cons_of_alive halive, List.takeWhile_cons, hfits,
    if_neg Bool.false_ne_true]

/-- `Walk.outcome` where there is room behind what can be stored, and something in the way. -/
theorem outcome_of_obstacle {w : Walk} {room : Nat} {e : TraceError}
    (hroom : (w.storable alive).length < room) (hobstacle : w.obstacle? p alive = some e) :
    w.outcome p alive room = .error (.error e) := by
  rw [outcome, if_neg (Nat.not_le_of_lt hroom), hobstacle]

/-- `Walk.outcome` is good if there is no room behind what can be stored, or nothing in the way. -/
theorem outcome_of_end {w : Walk} {room : Nat}
    (hend : room ≤ (w.storable alive).length ∨ w.obstacle? p alive = none) :
    w.outcome p alive room = .ok () := by
  rw [outcome]
  split
  · rfl
  · rename_i hroom
    rw [hend.resolve_left hroom]

/-- `Walk.outcome` at the end of the walk is the error that ended it. -/
private theorem outcome_nil {room : Nat} (hroom : 0 < room) :
    outcome ⟨[], error⟩ p alive room =
      match error with
      | none => .ok ()
      | some e => .error (.error (.debugInfo e)) := by
  cases error with
  | none => exact outcome_of_end (.inr rfl)
  | some e => exact outcome_of_obstacle hroom rfl

/-- `Walk.outcome` does not depend on an activation whose class is gone. -/
private theorem outcome_cons_of_gone (halive : alive a.method.holder = false) (as : List Activation)
    (room : Nat) :
    outcome ⟨a :: as, error⟩ p alive room = outcome ⟨as, error⟩ p alive room := by
  rw [outcome, storable_cons_of_gone halive, obstacle?, visited_cons_of_gone halive]
  rfl

/-- `Walk.outcome` goes on behind an activation that is recorded, with less room. -/
private theorem outcome_cons_of_fits (halive : alive a.method.holder = true)
    (hfits : Location.fits a.bci = true) (as : List Activation) (room : Nat) :
    outcome ⟨a :: as, error⟩ p alive (room + 1) = outcome ⟨as, error⟩ p alive room := by
  rw [outcome, storable_cons_of_fits halive hfits, obstacle?, visited_cons_of_alive halive,
    List.find?_cons, hfits, List.length_cons]
  simp only [Nat.add_le_add_iff_right]
  rfl

/-- `Walk.outcome` at an index that does not fit names the method and the index. -/
private theorem outcome_cons_of_not_fits (halive : alive a.method.holder = true)
    (hfits : Location.fits a.bci = false) (as : List Activation) {room : Nat} (hroom : 0 < room) :
    outcome ⟨a :: as, error⟩ p alive room =
      .error (.error (.bciOutOfRange (p.externalName alive a.method) a.bci)) := by
  have hnone : (storable ⟨a :: as, error⟩ alive).length = 0 := by
    rw [storable_cons_of_not_fits halive hfits, List.length_nil]
  refine outcome_of_obstacle (hnone ▸ hroom) ?_
  rw [obstacle?, visited_cons_of_alive halive, List.find?_cons, hfits]
  rfl

/-- Nothing but the walk makes `Walk.outcome` bad. -/
theorem isOfWalk_of_map_outcome {w : Walk} {room : Nat} {α : Type} {g : Unit → α}
    {e : Failure TraceError} (h : (w.outcome p alive room).map g = .error e) : e.IsOfWalk := by
  unfold outcome at h
  split at h
  · cases h
  · split at h
    · cases h
    · rename_i obstacle hobstacle
      cases h
      unfold obstacle? at hobstacle
      split at hobstacle
      · cases hobstacle
        trivial
      · obtain ⟨e, -, rfl⟩ := Option.map_eq_some_iff.mp hobstacle
        trivial

end Walk

/-- What recording `as` in the chunks of a store has done. -/
structure FilledWith (p : Program) (as : List Activation) (b b' : Builder) : Prop where
  sound : b'.Sound
  same : b.SameStore b'
  reservations_eq : b'.store.reservations = b.store.reservations
  hiddenTop_eq : b'.store.hiddenTop = b.store.hiddenTop
  written_eq : ∃ fs, b'.written = b.written ++ fs ∧ List.Forall₂ p.Tells fs as

namespace FilledWith

variable {p : Program} {b b' : Builder}

/-- A builder that has written nothing is `FilledWith` no activations. -/
private theorem nil (hb : b.Sound) : FilledWith p [] b b where
  sound := hb
  same := .refl b
  reservations_eq := rfl
  hiddenTop_eq := rfl
  written_eq := ⟨[], (List.append_nil _).symm, .nil⟩

/-- A builder that has written the first activation and is then `FilledWith` the others. -/
private theorem cons {a : Activation} {as : List Activation} {f : StoredFrame} (hf : p.Tells f a)
    (hwritten : (b.write f).written = b.written ++ [f]) (h : FilledWith p as (b.write f) b') :
    FilledWith p (a :: as) b b' where
  sound := h.sound
  same := ⟨h.same.chunkSize_eq, h.same.reuse_eq, h.same.verifier_eq⟩
  reservations_eq := h.reservations_eq.trans (b.reservations_write f)
  hiddenTop_eq := h.hiddenTop_eq
  written_eq := by
    obtain ⟨fs, heq, hfs⟩ := h.written_eq
    exact ⟨f :: fs, by rw [heq, hwritten, ← List.append_cons], .cons hf hfs⟩

end FilledWith

/-- A class that keeps alive none of the classes of the activations but those in `outside`. -/
def Program.AddsNone (p : Program) (outside : ClassSet) (as : List Activation) (id : ClassId) :
    Prop :=
  ∀ a ∈ as, a.method.holder ∈ p.ancestors id → a.method.holder.index < p.classes.size →
    outside.contains a.method.holder = true

section RefillAll

variable {p : Program} {roots : List ClassId} {outside : ClassSet} {a : Activation}
  {as : List Activation}

/-- A class that the roots keep alive adds none to those that they keep alive, by `Program.AddsNone`. -/
private theorem Program.addsNone_of_owned {id : ClassId} (h : (p.owned roots).contains id = true) :
    p.AddsNone (p.owned roots) as id :=
  fun _ _ hmem _ => contains_owned_of_mem_ancestors h hmem

/-- What is left in the store that is being overwritten makes no difference to what `Program.holder`
    finds. -/
private theorem holder_of_addsNone {s : Store} (hs : s.Owns (p.AddsNone outside (a :: as))) :
    p.holder (fun c => outside.contains c || s.owners.any fun o => (p.ancestors o).contains c)
      a.method = p.holder outside.contains a.method := by
  cases halive : outside.contains a.method.holder with
  | true => simp only [Program.holder, halive, Bool.true_or]
  | false =>
    simp only [Program.holder, halive, Bool.false_or, Bool.false_eq_true, if_false]
    split
    · rename_i hany
      obtain ⟨o, ho, hmem⟩ := List.any_eq_true.mp hany
      refine Array.getElem?_eq_none (Nat.le_of_not_lt fun hlt => ?_)
      have houtside := Store.owns_iff.mp hs o ho a List.mem_cons_self
        (List.contains_iff_mem.mp hmem) hlt
      rw [halive] at houtside
      cases houtside
    · rfl

/-- Of a walk, `refillAll` records the activations whose class is alive, as many as there is room for
    and up to the first whose index cannot be stored.  The memory is not looked at. -/
theorem refillAll_of_room (hp : p.Valid) (error : Option DebugInfo.Error) (as : List Activation)
    {b : Builder} (hb : b.Sound) (hroom : b.depth < b.store.chunkSize)
    (howns : b.store.Owns (p.AddsNone (p.owned roots) as)) :
    ∃ b' : Builder,
      (∀ m, refillAll p (p.owned roots) b.store.chunkSize error b m as =
        (Walk.outcome ⟨as, error⟩ p (p.owned roots).contains (b.store.chunkSize - b.depth), b', m)) ∧
      FilledWith p ((Walk.storable ⟨as, error⟩ (p.owned roots).contains).take
        (b.store.chunkSize - b.depth)) b b' := by
  -- Induction on what is left of the walk, with the builder as it then is
  induction as generalizing b with
  | nil =>
    rw [Walk.storable_nil, List.take_nil, Walk.outcome_nil (Nat.sub_pos_of_lt hroom)]
    refine ⟨b, fun m => ?_, .nil hb⟩
    cases error with
    | none => rfl
    | some e => rfl
  | cons a as ih =>
    have hrest : b.store.Owns (p.AddsNone (p.owned roots) as) :=
      fun c hc f hf a' ha' => howns c hc f hf a' (List.mem_cons_of_mem a ha')
    simp only [refillAll, holder_of_addsNone howns]
    cases halive : (p.owned roots).contains a.method.holder with
    | false =>
      -- The activation is not visited
      rw [Walk.storable_cons_of_gone halive, Walk.outcome_cons_of_gone halive]
      simp only [Program.holder, halive, Bool.false_eq_true, if_false]
      exact ih hb hroom hrest
    | true =>
      obtain ⟨c, hget⟩ := Option.isSome_iff_exists.mp (Program.isSome_get?_of_owned halive)
      have hholder : p.holder (p.owned roots).contains a.method = some c := (if_pos halive).trans hget
      simp only [hholder]
      -- An index that cannot be stored ends the recording, with an error
      cases hfits : Location.fits a.bci with
      | false =>
        rw [Walk.storable_cons_of_not_fits halive hfits, List.take_nil,
          Walk.outcome_cons_of_not_fits halive hfits as (Nat.sub_pos_of_lt hroom),
          Program.externalName, hholder]
        simp only [Builder.push_of_not_fits hfits]
        exact ⟨b, fun m => rfl, .nil hb⟩
      | true =>
        obtain ⟨f, hrecords, hwritten, hsound, hpush⟩ :=
          hb.push_of_room hroom hfits c a.method
        have hleft : b.store.chunkSize - b.depth =
            b.store.chunkSize - (b.depth + 1) + 1 := by omega
        rw [hleft, Walk.storable_cons_of_fits halive hfits, List.take_succ_cons,
          Walk.outcome_cons_of_fits halive hfits]
        simp only [hpush]
        have htells : p.Tells f a := ⟨c, hget, hrecords⟩
        -- The frame that is written is of a class that the roots keep alive
        have howns' : (b.write f).store.Owns (p.AddsNone (p.owned roots) as) := by
          have hc : (p.owned roots).contains c.id = true := by
            rw [hp.id_eq hget]
            exact halive
          exact Builder.owns_push hrest (Program.addsNone_of_owned hc) (hpush (Memory.ofLimit none))
        -- Either that was the last slot of the chunk, or there is room for the others
        by_cases hfull : b.store.chunkSize ≤ b.depth + 1
        · rw [Nat.sub_eq_zero_of_le hfull, List.take_zero, Walk.outcome_of_end (.inl (Nat.zero_le _))]
          exact ⟨b.write f, fun m => if_pos hfull, .cons htells hwritten (.nil hsound)⟩
        · obtain ⟨b', hrefill, hfilled⟩ := ih hsound (Nat.lt_of_not_le hfull) howns'
          refine ⟨b', fun m => ?_, .cons htells hwritten hfilled⟩
          exact (if_neg hfull).trans (hrefill m)

end RefillAll

/-! ## Handing out an error -/

/-- What `Universe.prepareErrors` makes: an error whose store has one empty chunk. -/
def Throwable.ready (cls : ClassId) (chunkSize : Nat) (reservation : Reservation) : Throwable :=
  ⟨{ cls, message := none, trace := some ⟨chunkSize, #[⟨chunkSize, #[], none, reservation⟩], none⟩,
     depth := 0, preallocated := true }, []⟩

/-- What has become of a store that was filled again with `as`, as far as its first chunk has room for
    them.  It owns the same chunks as before, but no marker. -/
structure Store.RefilledWith (p : Program) (as : List Activation) (s s' : Store) : Prop where
  chunkSize_eq : s'.chunkSize = s.chunkSize
  reservations_eq : s'.reservations = s.chunks.toList.map (·.reservation)
  hiddenTop_eq : s'.hasHiddenTop = false
  frames_eq : List.Forall₂ p.Tells s'.frames (as.take s.chunkSize)

/-- The store of a `Throwable.ready` error, filled with `as` as far as its chunk has room for them. -/
structure Store.HoldsFirst (p : Program) (as : List Activation) (chunkSize : Nat)
    (reservation : Reservation) (s : Store) : Prop where
  chunkSize_eq : s.chunkSize = chunkSize
  reservations_eq : s.reservations = [reservation]
  hiddenTop_eq : s.hasHiddenTop = false
  frames_eq : List.Forall₂ p.Tells s.frames (as.take chunkSize)

namespace Universe

variable {u : Universe} {cls : ClassId} {chunkSize : Nat} {reservation : Reservation}

/-- `Universe.refillStackTrace` publishes what was recorded, however recording ended. -/
theorem refillStackTrace_of_trace (henabled : u.config.backtrace.enabled = true)
    {others : List ClassId} {t : Throwable} {s : Store} (htrace : t.head.trace = some s)
    {thread : ManagedThread} {r : Except (Failure TraceError) Unit} {b : Builder} {m : Memory}
    (hrefill : refillAll u.program (u.owned (t.takeTrace.2.owners ++ others)) s.chunkSize
      (Walk.ofStack thread.stack).error (Builder.reopen s u.memory).1 (Builder.reopen s u.memory).2
      (Walk.ofStack thread.stack).activations = (r, b, m)) :
    u.refillStackTrace others t thread =
      (r.map fun _ => b.depth,
        t.modifyHead ({ · with trace := some (b.finish m).1, depth := b.depth }),
        { u with memory := (b.finish m).2 }) := by
  have htaken : t.takeTrace = (some s, t.takeTrace.2) := Prod.ext htrace rfl
  rw [refillStackTrace, henabled, htaken]
  simp only [Bool.not_true, Bool.false_eq_true, if_false, hrefill]
  rfl

/-- A store that keeps none of the visited classes alive by itself is filled in place by
    `Universe.refillStackTrace`, as far as its first chunk has room.  Its marker is given back, and
    nothing is charged. -/
theorem refillStackTrace_of_addsNone (henabled : u.config.backtrace.enabled = true)
    (hp : u.program.Valid) (others : List ClassId) {t : Throwable} {s : Store}
    (htrace : t.head.trace = some s) (hs : s.Usable) (thread : ManagedThread)
    (howns : s.Owns (u.program.AddsNone (u.owned (t.takeTrace.2.owners ++ others))
      (Walk.ofStack thread.stack).activations)) :
    let walk := Walk.ofStack thread.stack
    let alive := (u.owned (t.takeTrace.2.owners ++ others)).contains
    let n := min s.chunkSize (walk.storable alive).length
    ∃ s' : Store, u.refillStackTrace others t thread =
        ((walk.outcome u.program alive s.chunkSize).map fun _ => n,
          t.modifyHead ({ · with trace := some s', depth := n }),
          { u with memory := u.memory.releaseAll (s.hiddenTop.map (·.reservation)).toList }) ∧
      s.RefilledWith u.program (walk.storable alive) s' := by
  intro walk alive n
  let b := (Builder.reopen s u.memory).1
  let opened := (Builder.reopen s u.memory).2
  have hblank : b.Blank := Builder.blank_reopen hs u.memory
  obtain ⟨b', hrefill, hfilled⟩ :=
    refillAll_of_room hp walk.error walk.activations hblank.sound hs.chunkSize_pos howns
  obtain ⟨fs, hwritten, htells⟩ := hfilled.written_eq
  rw [hblank.written_eq, List.nil_append] at hwritten
  -- The scope that was opened is closed again, and nothing was charged
  have hmemory : (b'.finish opened).2 =
      u.memory.releaseAll (s.hiddenTop.map (·.reservation)).toList := by
    rw [Builder.snd_finish, hfilled.same.verifier_eq]
    rfl
  have hdepth : b'.depth = n := by
    rw [← hfilled.sound.length_written, hwritten, htells.length_eq, List.length_take]
    rfl
  have heq := refillStackTrace_of_trace henabled htrace (hrefill opened)
  rw [hmemory, hdepth] at heq
  refine ⟨(b'.finish opened).1, heq, ?_, ?_, ?_, ?_⟩
  · rw [Builder.chunkSize_finish, hfilled.same.chunkSize_eq]
    rfl
  · rw [Builder.reservations_finish, hfilled.reservations_eq]
    exact List.append_nil _
  · rw [Store.hasHiddenTop, Builder.hiddenTop_finish, hfilled.hiddenTop_eq]
    rfl
  · rw [hfilled.sound.frames_finish, hwritten]
    exact htells

/-- `Universe.refillStackTrace` fills a prepared error in place.  The memory is the same as before, and
    the walk alone can end the recording early. -/
theorem refillStackTrace_ready (henabled : u.config.backtrace.enabled = true)
    (hp : u.program.Valid) (hpos : 0 < chunkSize) (cls : ClassId) (reservation : Reservation)
    (message : Option String) (others : List ClassId) (thread : ManagedThread) :
    let t := (Throwable.ready cls chunkSize reservation).modifyHead ({ · with message })
    let storable := (Walk.ofStack thread.stack).storable (u.owned (cls :: others)).contains
    ∃ (r : Except (Failure TraceError) Nat) (s : Store), u.refillStackTrace others t thread =
        (r, t.modifyHead ({ · with trace := some s, depth := min chunkSize storable.length }), u) ∧
      (∀ e, r = .error e → e.IsOfWalk) ∧
      s.HoldsFirst u.program storable chunkSize reservation := by
  intro t storable
  let empty : Store := ⟨chunkSize, #[⟨chunkSize, #[], none, reservation⟩], none⟩
  have husable : empty.Usable := by
    refine ⟨hpos, List.cons_ne_nil _ _, fun c hc => ?_⟩
    rw [List.mem_singleton.mp hc]
    exact Chunk.fits_empty chunkSize reservation
  have howns : empty.Owns (u.program.AddsNone (u.owned (t.takeTrace.2.owners ++ others))
      (Walk.ofStack thread.stack).activations) := by
    intro c hc f hf
    rw [List.mem_singleton.mp hc] at hf
    exact nomatch hf
  obtain ⟨s, heq, hrefilled⟩ :=
    refillStackTrace_of_addsNone henabled hp others (t := t) rfl husable thread howns
  exact ⟨_, s, heq, fun e he => Walk.isOfWalk_of_map_outcome he, hrefilled.chunkSize_eq,
    hrefilled.reservations_eq, hrefilled.hiddenTop_eq, hrefilled.frames_eq⟩

/-- With no prepared error left, an error by `Universe.outOfMemoryError` has its class and message and
    no trace. -/
theorem outOfMemoryError_of_nil (hpool : u.pool = []) (others : List ClassId)
    (thread : ManagedThread) (message : Option String) :
    u.outOfMemoryError others thread message =
      ((Throwable.prepared u.outOfMemoryClass).modifyHead ({ · with message }), u) := by
  rw [outOfMemoryError, hpool]
  split
  · rfl
  · rfl

/-- `Universe.outOfMemoryError` hands out the first of the prepared errors, and the memory stays as it
    was. -/
theorem outOfMemoryError_of_cons (henabled : u.config.backtrace.enabled = true)
    (hp : u.program.Valid) (hpos : 0 < chunkSize) {rest : List Throwable}
    (hpool : u.pool = Throwable.ready cls chunkSize reservation :: rest) (others : List ClassId)
    (thread : ManagedThread) (message : Option String) :
    let left : Universe := { u with pool := rest }
    let t := (Throwable.ready cls chunkSize reservation).modifyHead ({ · with message })
    let storable := (Walk.ofStack thread.stack).storable (left.owned (cls :: others)).contains
    ∃ s : Store, u.outOfMemoryError others thread message =
        (t.modifyHead ({ · with trace := some s, depth := min chunkSize storable.length }), left) ∧
      (∀ e, (left.refillStackTrace others t thread).1 = .error e → e.IsOfWalk) ∧
      s.HoldsFirst u.program storable chunkSize reservation := by
  intro left t storable
  obtain ⟨r, s, hrefill, herror, hholds⟩ :=
    refillStackTrace_ready (u := left) henabled hp hpos cls reservation message others thread
  refine ⟨s, ?_, ?_, hholds⟩
  · rw [outOfMemoryError, henabled, hpool]
    simp only [Bool.not_true, Bool.false_eq_true, if_false]
    exact congrArg Prod.snd hrefill
  · rw [hrefill]
    exact herror

/-- Each `Universe.outOfMemoryError` takes one error out of the pool, as long as there is one. -/
theorem world_outOfMemoryError_of_enabled (henabled : u.config.backtrace.enabled = true)
    (others : List ClassId) (thread : ManagedThread) (message : Option String) :
    ∃ memory, (u.outOfMemoryError others thread message).2 =
      { u with memory, pool := u.pool.tail } := by
  cases hpool : u.pool with
  | nil =>
    rw [outOfMemoryError_of_nil hpool]
    exact ⟨u.memory, by rw [List.tail_nil, ← hpool]⟩
  | cons t rest =>
    rw [outOfMemoryError, henabled, hpool]
    exact world_refillStackTrace { u with pool := rest } others _ thread

/-! ## Preparing errors -/

/-- The prepared errors that are left are as they were made (`Throwable.ready`). -/
def PoolReady (u : Universe) : Prop :=
  ∀ t ∈ u.pool, ∃ reservation,
    t = Throwable.ready u.outOfMemoryClass u.config.backtrace.chunkSize reservation

/-- `Universe.allocateTrace` makes a prepared error ready. -/
private theorem allocateTrace_prepared (henabled : u.config.backtrace.enabled = true) {t : Throwable}
    {u' : Universe} (h : u.allocateTrace (Throwable.prepared cls) = (.ok (), t, u')) :
    ∃ memory reservation, u' = { u with memory } ∧
      t = Throwable.ready cls u.config.backtrace.chunkSize reservation := by
  rw [allocateTrace, henabled] at h
  simp only [Bool.not_true, Bool.false_eq_true, if_false] at h
  split at h
  · cases h
  · rename_i b m hstart
    rcases Builder.start_cases hstart with ⟨e, he⟩ | ⟨-, reservation, hok⟩
    · cases he
    · cases hok
      cases h
      exact ⟨_, reservation, rfl, rfl⟩

/-- `Universe.prepareErrors` puts as many errors into the pool as it is asked for, all of them ready. -/
private theorem pool_prepareErrors (count : Nat) {u u' : Universe}
    (henabled : u.config.backtrace.enabled = true) (hu : u.PoolReady)
    (h : u.prepareErrors count = .ok u') :
    u'.PoolReady ∧ u'.pool.length = u.pool.length + count ∧
      u'.outOfMemoryClass = u.outOfMemoryClass := by
  induction count generalizing u with
  | zero =>
    cases h
    exact ⟨hu, rfl, rfl⟩
  | succ count ih =>
    unfold prepareErrors at h
    split at h
    · cases h
    · rename_i t u₁ hallocate
      obtain ⟨memory, reservation, rfl, rfl⟩ := allocateTrace_prepared henabled hallocate
      let t := Throwable.ready u.outOfMemoryClass u.config.backtrace.chunkSize reservation
      let u₁ : Universe := { u with memory, pool := t :: u.pool }
      -- The new error is ready, and the others were
      have hready : u₁.PoolReady := by
        intro t' ht'
        rcases List.mem_cons.mp ht' with rfl | ht'
        · exact ⟨reservation, rfl⟩
        · exact hu t' ht'
      obtain ⟨hready', hlength, hclass⟩ := ih (u := u₁) henabled hready h
      refine ⟨hready', hlength.trans ?_, hclass⟩
      show u.pool.length + 1 + count = u.pool.length + (count + 1)
      omega

/-- After `Universe.genesis`, a runtime that captures traces has as many prepared errors as the settings
    ask for. -/
theorem pool_of_genesis {config : RuntimeConfig} (henabled : config.backtrace.enabled = true)
    (h : genesis config = .ok u) : u.PoolReady ∧
      u.pool.length = config.backtrace.preallocatedErrors ∧
      u.outOfMemoryClass = (boot config).outOfMemoryClass ∧ 0 < config.backtrace.chunkSize := by
  unfold genesis at h
  split at h
  · cases h
  · rename_i hvalid
    split at h
    · cases h
    · simp only [henabled, if_true] at h
      have hnone : (boot config).PoolReady := nofun
      obtain ⟨hready, hlength, hclass⟩ := pool_prepareErrors _ henabled hnone h
      exact ⟨hready, hlength.trans (Nat.zero_add _), hclass, chunkSize_pos_of_validate hvalid⟩

end Universe

end StackTrace
