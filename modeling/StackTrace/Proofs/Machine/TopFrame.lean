import StackTrace.Proofs.Capture.Depth
import StackTrace.Proofs.Machine.Isolation
import StackTrace.Proofs.Program.Redefinition

/-!
# The innermost frame

The method that was running when a trace was captured is looked up apart from the elements that the
trace is shown as, and the lookup decides for itself whether it can be told.  The two agree: the method
is told exactly if the first element is live and the innermost frame of the stack was not hidden.

For that the class of the frame has to be there, since a frame of no class would be shown as a live
element of no name, and the trace has to be in good order, since a store without slots would be shown as
empty whatever lay in its chunks.  Both hold throughout a run.

## Key results

- `Store.Usable.next_start`: what a cursor reads first, whether there is a frame or not
- `StackTraceElement.ofFrame_of_live`, `StackTraceElement.exists_liveMethod?`: a frame is live exactly
  if its method can be told
- `Throwable.topMethod?_eq_some_iff`: when the innermost method of a trace is told
- `Machine.consistent_of_run`: in every run, the traces of all throwables and of what caused them are
  in good order
- `Machine.topMethod_of_run`: the innermost method and the first element
-/

namespace StackTrace

/-! ## One frame -/

/-- `Cursor.next` reads first what is the first of all frames that it reads. -/
theorem Store.Usable.next_start {s : Store} (hs : s.Usable) :
    (Cursor.start s).next.1 = s.frames[0]? := by
  cases hframes : s.frames[0]? with
  | some f => exact Cursor.next_start hframes
  | none =>
    -- The cursor is allowed a step, so that it would have read a frame
    have hsize : s.chunks.size ≠ 0 := by
      rw [← Array.length_toList]
      exact mt List.length_eq_zero_iff.mp hs.chunks_ne_nil
    obtain ⟨fuel, hfuel⟩ := Nat.exists_eq_succ_of_ne_zero
      (Nat.mul_ne_zero hsize (Nat.ne_of_gt hs.chunkSize_pos))
    rw [frames, Cursor.rest, show (Cursor.start s).store = s from rfl, hfuel, Cursor.collect] at hframes
    split at hframes
    · rename_i hnext
      rw [hnext]
    · rw [Cursor.collect_eq_append] at hframes
      simp at hframes

namespace StackTraceElement

variable {p : Program} {f : StoredFrame} {c : Class} {method : Method}

/-- `Throwable.liveMethod?` is the method of the ordinal, if its generation is the version of the
    frame. -/
private theorem liveMethod?_eq_filter (hget : p.get? f.holder = some c) :
    Throwable.liveMethod? p f = (c.methodWithOrdinal f.ordinal f.location.version).filter
      (versionMatches ·.generation f.location.version) := by
  rw [Throwable.liveMethod?, Throwable.resolve?, hget, Option.bind_some]

/-- `StackTraceElement.ofFrame` of a frame whose method can be told is live, and shows that method. -/
theorem ofFrame_of_live (h : Throwable.liveMethod? p f = some method) :
    (ofFrame p f).status = .live ∧ (ofFrame p f).methodName = method.name.text ∧
      (ofFrame p f).lineNumber = method.lineNumber f.location.bci ∧
      method.generation = f.location.version := by
  obtain ⟨hresolve, hmatches⟩ := Option.filter_eq_some_iff.mp h
  obtain ⟨c, hget, -⟩ := Option.bind_eq_some_iff.mp hresolve
  rw [liveMethod?_eq_filter hget] at h
  obtain ⟨hstatus, hname, hline, -⟩ := materialize_of_live h f.location.bci f.name.text
  simp only [ofFrame, hget]
  rw [versionMatches, Bool.and_eq_true, beq_iff_eq] at hmatches
  exact ⟨hstatus, hname, hline, hmatches.2⟩

/-- For a frame that is live `Throwable.liveMethod?` finds a method, if the class of the frame is
    there. -/
theorem exists_liveMethod? (hget : p.get? f.holder = some c) (hlive : (ofFrame p f).status = .live) :
    ∃ method, Throwable.liveMethod? p f = some method := by
  -- An element whose method cannot be told would be shown as redefined
  refine Option.ne_none_iff_exists'.mp fun hnone => ?_
  rw [liveMethod?_eq_filter hget] at hnone
  obtain ⟨hstatus, -⟩ := materialize_of_redefined hnone f.location.bci f.name.text
  simp only [ofFrame, hget, hstatus] at hlive
  cases hlive

end StackTraceElement

namespace Throwable

variable {p : Program} {t : Throwable} {s : Store}

/-- `Throwable.elements` is one element for each frame. -/
private theorem getElem?_elements (htrace : t.head.trace = some s) (i : Nat) :
    (t.elements p)[i]? = s.frames[i]?.map (StackTraceElement.ofFrame p) := by
  simp only [elements, Condition.elements, Condition.frames, htrace, Option.map_some,
    Option.getD_some, List.getElem?_map]

/-- `Throwable.topMethod?` is the method of the first frame, if that is live and nothing was hidden. -/
theorem topMethod?_eq_some_iff (htrace : t.head.trace = some s) (hs : s.Usable) (method : Method)
    (bci : Int) : t.topMethod? p = some (method, bci) ↔ s.hasHiddenTop = false ∧
      ∃ f, s.frames[0]? = some f ∧ liveMethod? p f = some method ∧ f.location.bci = bci := by
  simp only [topMethod?, htrace, hs.next_start]
  -- In the order in which `topMethod?` looks: the mark of a hidden top, then the first frame
  cases hhidden : s.hasHiddenTop with
  | true => simp
  | false =>
    cases hframe : s.frames[0]? with
    | none => simp
    | some f =>
      simp only [Bool.false_eq_true, if_false, Option.map_eq_some_iff, Prod.mk.injEq, true_and,
        Option.some.injEq, exists_eq_left']
      constructor
      · rintro ⟨_, hlive, rfl, hbci⟩
        exact ⟨hlive, hbci⟩
      · rintro ⟨hlive, hbci⟩
        exact ⟨method, hlive, rfl, hbci⟩

end Throwable

/-! ## Traces in good order -/

namespace Throwable

/-- `Condition.Consistent` holds of a throwable and of what caused it. -/
def Consistent (t : Throwable) : Prop := ∀ c ∈ t.chain, c.Consistent

/-- `Throwable.Consistent` is `Condition.Consistent` of the throwable itself and of its causes. -/
private theorem consistent_iff {t : Throwable} :
    t.Consistent ↔ t.head.Consistent ∧ ∀ c ∈ t.causes, c.Consistent := List.forall_mem_cons

/-- `Throwable.Consistent` survives another trace that is in good order. -/
private theorem Consistent.of_causes {t t' : Throwable} (ht : t.Consistent)
    (hcauses : t'.causes = t.causes) (hhead : t'.head.Consistent) : t'.Consistent :=
  consistent_iff.mpr ⟨hhead, hcauses ▸ (consistent_iff.mp ht).2⟩

/-- `Throwable.Consistent` has no part in the message. -/
private theorem Consistent.withMessage {t : Throwable} (ht : t.Consistent) (message : Option String) :
    (t.modifyHead ({ · with message })).Consistent := by
  obtain ⟨⟨hdepth, husable⟩, hcauses⟩ := consistent_iff.mp ht
  exact consistent_iff.mpr ⟨⟨hdepth, husable⟩, hcauses⟩

/-- `Throwable.prepared` has no trace and no cause. -/
private theorem consistent_prepared (cls : ClassId) : (prepared cls).Consistent :=
  consistent_iff.mpr ⟨Universe.consistent_prepared cls, nofun⟩

end Throwable

namespace Universe

variable {u : Universe} {others : List ClassId} {t : Throwable} {thread : ManagedThread}

/-- `Universe.refillStackTrace` keeps `Throwable.Consistent`. -/
private theorem chain_consistent_refillStackTrace (ht : t.Consistent) :
    (u.refillStackTrace others t thread).2.1.Consistent :=
  ht.of_causes causes_refillStackTrace
    (consistent_refillStackTrace (Throwable.consistent_iff.mp ht).1 others thread rfl).1

/-- `Universe.allocateTrace` keeps `Throwable.Consistent`. -/
private theorem chain_consistent_allocateTrace (ht : t.Consistent) : (u.allocateTrace t).2.1.Consistent :=
  ht.of_causes causes_allocateTrace
    (consistent_allocateTrace (Throwable.consistent_iff.mp ht).1 rfl).1

/-- `Universe.outOfMemoryError` hands out a new error or one that was prepared. -/
private theorem chain_consistent_outOfMemoryError (hpool : ∀ t ∈ u.pool, t.Consistent)
    (message : Option String) : (u.outOfMemoryError others thread message).1.Consistent := by
  unfold outOfMemoryError
  simp only
  split
  · exact (Throwable.consistent_prepared _).withMessage message
  · split
    · exact (Throwable.consistent_prepared _).withMessage message
    · rename_i t pool heq
      exact chain_consistent_refillStackTrace ((hpool t (heq ▸ List.mem_cons_self)).withMessage message)

end Universe

namespace Machine

variable {m : Machine}

/-- `Keeps` for `Throwable.Consistent`. -/
private theorem keeps_consistent (hpool : ∀ t ∈ m.world.pool, t.Consistent) :
    Keeps Throwable.Consistent m.world where
  new := fun _ _ => Throwable.consistent_iff.mpr ⟨Throwable.consistent_of_no_trace rfl rfl, nofun⟩
  withCause := fun ht hinner =>
    Throwable.consistent_iff.mpr ⟨(Throwable.consistent_iff.mp ht).1, hinner⟩
  withMessage := fun message ht => ht.withMessage message
  fill := fun method ht => ht.of_causes (Universe.causes_fillInStackTrace method)
    (Universe.consistent_fillInStackTrace (Throwable.consistent_iff.mp ht).1 _ _ method rfl).1
  refill := Universe.chain_consistent_refillStackTrace
  allocate := Universe.chain_consistent_allocateTrace
  handOut := Universe.chain_consistent_outOfMemoryError hpool

/-- `Machine.run` leaves all traces in good order, those of prepared errors and of throwables, and of
    what caused them: depths count the frames, and the stores can be filled again. -/
theorem consistent_of_run {config : RuntimeConfig} {requests : List Request}
    (h : run config requests = .ok m) :
    ∀ t ∈ m.world.pool ++ m.throwables.values, t.Consistent := by
  have hkept : (∀ t ∈ m.world.pool, t.Consistent) ∧ m.AllHold Throwable.Consistent := by
    -- An error that is handed out comes from the pool, so the two are kept together
    refine of_run (P := fun m => (∀ t ∈ m.world.pool, t.Consistent) ∧
      m.AllHold Throwable.Consistent) (fun u hu => ⟨?_, nofun⟩) (fun m r hm => ?_) h
    · exact Universe.forall_pool_genesis
        (fun _ => Universe.chain_consistent_allocateTrace (Throwable.consistent_prepared _)) hu
    · cases r with
      | code r =>
        have hsame := r.sameTraces m
        exact ⟨by rw [show (m.perform (.code r)).world = _ from hsame.world_eq]; exact hm.1,
          fun t ht => hm.2 t (hsame.throwables_eq ▸ ht)⟩
      | trace r =>
        obtain ⟨memory, pool, hworld, hpool⟩ := (r.sameCode m).world_eq
        refine ⟨fun t ht => hm.1 t (hpool t ?_), r.allHold (keeps_consistent hm.1) hm.2⟩
        rw [show (m.perform (.trace r)).world = _ from hworld] at ht
        exact ht
  intro t ht
  rcases List.mem_append.mp ht with ht | ht
  · exact hkept.1 t ht
  · exact hkept.2 t ht

/-! ## The innermost method -/

/-- `Throwable.topMethod?` agrees with the first of `Throwable.elements` at any point of any run, for
    every throwable and for what caused it.  The method is told exactly if there is a trace with a
    frame, the innermost frame of the stack was not hidden, and the first element is live.  Then its
    name and its line are those of the element, and its generation is the version that the first frame
    carries. -/
theorem topMethod_of_run {config : RuntimeConfig} {requests : List Request}
    (h : run config requests = .ok m) {whole t : Throwable}
    (hwhole : whole ∈ m.world.pool ++ m.throwables.values) (ht : t.head ∈ whole.chain) :
    ((∃ method bci, t.topMethod? m.program = some (method, bci)) ↔
      ∃ s, t.head.trace = some s ∧ 0 < s.frameCount ∧ s.hasHiddenTop = false ∧
        ∃ e, (t.elements m.program)[0]? = some e ∧ e.status = .live) ∧
    ∀ method bci, t.topMethod? m.program = some (method, bci) →
      ∃ s f e, t.head.trace = some s ∧ s.frames[0]? = some f ∧
        (t.elements m.program)[0]? = some e ∧ e.methodName = method.name.text ∧
        e.lineNumber = method.lineNumber bci ∧ method.generation = f.location.version := by
  cases htrace : t.head.trace with
  | none =>
    have htop : t.topMethod? m.program = none := by rw [Throwable.topMethod?, htrace]
    rw [htop]
    refine ⟨⟨?_, ?_⟩, ?_⟩
    · rintro ⟨_, _, hsome⟩
      cases hsome
    · rintro ⟨_, hsome, -⟩
      cases hsome
    · intro _ _ hsome
      cases hsome
  | some s =>
    have htop := Throwable.topMethod?_eq_some_iff (p := m.program) htrace
      ((consistent_of_run h whole hwhole _ ht).usable s htrace)
    refine ⟨⟨?_, ?_⟩, ?_⟩
    -- A method that is told is that of the first frame, which is live, then
    · rintro ⟨method, bci, hmethod⟩
      obtain ⟨hhidden, f, hframe, hlive, -⟩ := (htop method bci).mp hmethod
      obtain ⟨hpos, -⟩ := List.getElem?_eq_some_iff.mp hframe
      refine ⟨s, rfl, hpos, hhidden, _, ?_, (StackTraceElement.ofFrame_of_live hlive).1⟩
      rw [Throwable.getElem?_elements htrace, hframe, Option.map_some]
    -- And a first frame that is live has a method that can be told
    · rintro ⟨s', hs', -, hhidden, e, he, hstatus⟩
      obtain rfl := Option.some.inj hs'
      rw [Throwable.getElem?_elements htrace, Option.map_eq_some_iff] at he
      obtain ⟨f, hframe, rfl⟩ := he
      -- The trace keeps the class of its first frame alive
      obtain ⟨c, hget⟩ := Option.isSome_iff_exists.mp (Program.isSome_get?_of_owned
        ((valid_of_run h).alive_of_trace ⟨whole, hwhole, t.head, ht, htrace⟩
          (List.mem_of_getElem? hframe)))
      obtain ⟨method, hlive⟩ := StackTraceElement.exists_liveMethod? hget hstatus
      exact ⟨method, f.location.bci, (htop _ _).mpr ⟨hhidden, f, hframe, hlive, rfl⟩⟩
    · intro method bci hmethod
      obtain ⟨-, f, hframe, hlive, rfl⟩ := (htop method bci).mp hmethod
      obtain ⟨-, hname, hline, hgeneration⟩ := StackTraceElement.ofFrame_of_live hlive
      refine ⟨s, f, _, rfl, hframe, ?_, hname, hline, hgeneration⟩
      rw [Throwable.getElem?_elements htrace, hframe, Option.map_some]

/-- The class whose method was called is redefined, and its old version is purged. -/
def purgeWidget : List Request := [.code (.redefine (.loaded "acme/Widget") [] none true 1)]

/-- `topMethod_of_run` for `traceWidget`: the innermost method is told when the stack has been captured,
    and not any more when its version has been purged. -/
theorem topMethod_of_run_purgeWidget :
    (∃ m t method bci, run {} traceWidget = .ok m ∧ t ∈ m.throwables.values ∧
      t.topMethod? m.program = some (method, bci)) ∧
    ∃ m t, run {} (traceWidget ++ purgeWidget) = .ok m ∧ t ∈ m.throwables.values ∧
      t.elements m.program ≠ [] ∧ t.topMethod? m.program = none := by
  -- Two runs are evaluated, for the conditions that tell the method and for the one that does not
  have htraced : (run {} traceWidget).toOption.any (fun m => m.throwables.values.any fun t =>
      t.head.trace.any fun s => decide (0 < s.frameCount) && !s.hasHiddenTop &&
        (t.elements m.program)[0]?.any fun e => decide (e.status = .live)) = true := by
    decide +kernel
  have hpurged : (run {} (traceWidget ++ purgeWidget)).toOption.any (fun m =>
      m.throwables.values.any fun t =>
        (t.elements m.program)[0]?.any fun e => decide (e.status = .redefined)) = true := by
    decide +kernel
  obtain ⟨m, hrun, htested⟩ := exists_run_of_any htraced
  obtain ⟨m', hrun', htested'⟩ := exists_run_of_any hpurged
  simp only [List.any_eq_true, Option.any_eq_true, Bool.and_eq_true, Bool.not_eq_true',
    decide_eq_true_eq] at htested htested'
  obtain ⟨t, ht, s, hs, ⟨hpos, hhidden⟩, e, he, hlive⟩ := htested
  obtain ⟨t', ht', e', he', hredefined⟩ := htested'
  constructor
  · obtain ⟨hiff, -⟩ :=
      topMethod_of_run hrun (List.mem_append_right _ ht) (t := t) List.mem_cons_self
    obtain ⟨method, bci, hmethod⟩ := hiff.mpr ⟨s, hs, hpos, hhidden, e, he, hlive⟩
    exact ⟨m, t, method, bci, hrun, ht, hmethod⟩
  · refine ⟨m', t', hrun', ht', fun hnil => ?_, ?_⟩
    · rw [hnil] at he'
      cases he'
    · obtain ⟨hiff, -⟩ :=
        topMethod_of_run hrun' (List.mem_append_right _ ht') (t := t') List.mem_cons_self
      refine Option.eq_none_iff_forall_ne_some.mpr fun (method, bci) htop => ?_
      obtain ⟨_, -, -, -, e₁, he₁, hlive₁⟩ := hiff.mp ⟨method, bci, htop⟩
      obtain rfl := Option.some.inj (he'.symm.trans he₁)
      cases hredefined.symm.trans hlive₁

end Machine

end StackTrace
