import StackTrace.Proofs.Program.Versions
import StackTrace.Proofs.Store.History
import StackTrace.Throwable

/-!
# Stored frames of a class that is redefined

A stored frame names its method by ordinal and version.  The frame is live as long as the version it
was recorded from is kept, provided that the version could be stored at all: the largest one that can
stands for all later ones, and belongs to none of them.

## Key results

- `Class.filter_methodWithOrdinal_of_keeps`, `Class.filter_methodWithOrdinal_of_not_keeps`: the
  method that a stored ordinal and version still name
- `Builder.liveness_of_pushed`: what becomes of a frame, in any history of its class
-/

namespace StackTrace

namespace Location

/-- `Location.versionOf` leaves a generation below the largest version as it is. -/
theorem versionOf_of_lt {generation : Nat} (hlt : generation < saturatedVersion) :
    versionOf generation = generation := Nat.min_eq_left (Nat.le_of_lt hlt)

/-- `versionOf` is the same from the largest version on. -/
theorem versionOf_of_ge {generation : Nat} (hge : saturatedVersion ≤ generation) :
    versionOf generation = saturatedVersion := Nat.min_eq_right hge

end Location

/-- `versionMatches` fails at the largest version, whatever the generation. -/
private theorem versionMatches_saturated (generation : Nat) :
    versionMatches generation Location.saturatedVersion = false := by
  rw [versionMatches, bne_self_eq_false, Bool.false_and]

/-- `versionMatches` holds of a generation below the largest version and itself. -/
theorem versionMatches_self {generation : Nat} (hlt : generation < Location.saturatedVersion) :
    versionMatches generation generation = true := by
  have hne : (generation != Location.saturatedVersion) = true :=
    bne_iff_ne.mpr (Nat.ne_of_lt hlt)
  rw [versionMatches, hne, beq_self_eq_true, Bool.and_self]

namespace Class

/-- The generation of a frame recorded from `generation` is stored exactly and still kept. -/
def Keeps (c : Class) (generation : Nat) (history : List ClassChange) : Prop :=
  generation < 65535 ∧
    ((c.evolve history).generation = generation ∨ ¬c.PurgedSince generation history)

variable {c : Class} {method : Method}

/-- What a stored ordinal and version name that were recorded from `method`: the method itself, as
    long as its version is kept. -/
theorem filter_methodWithOrdinal_of_keeps (hc : c.Loaded)
    (hmethod : c.methodWithOrdinal method.ordinal method.generation = some method)
    {history : List ClassChange} (hkeeps : c.Keeps method.generation history) :
    ((c.evolve history).methodWithOrdinal method.ordinal
        (Location.versionOf method.generation)).filter
      (versionMatches ·.generation (Location.versionOf method.generation)) = some method := by
  obtain ⟨hlt, hkept⟩ := hkeeps
  obtain ⟨v, hv, -⟩ := Option.bind_eq_some_iff.mp hmethod
  have hle := hc.le_of_version hv
  have hnot : ¬c.PurgedSince method.generation history :=
    hkept.elim (not_purgedSince_of_current hle) fun hnot => hnot
  rw [Location.versionOf_of_lt hlt, methodWithOrdinal, version_evolve_of_kept hle hnot,
    ← methodWithOrdinal, hmethod, Option.filter_some, versionMatches_self hlt, if_pos rfl]

/-- `Class.methodWithOrdinal` finds no method of the version once that is not kept. -/
theorem filter_methodWithOrdinal_of_not_keeps (hc : c.Loaded)
    (hmethod : c.methodWithOrdinal method.ordinal method.generation = some method)
    {history : List ClassChange} (hkeeps : ¬c.Keeps method.generation history) :
    ((c.evolve history).methodWithOrdinal method.ordinal
        (Location.versionOf method.generation)).filter
      (versionMatches ·.generation (Location.versionOf method.generation)) = none := by
  by_cases hlt : method.generation < Location.saturatedVersion
  · -- The version could be stored, so it has been purged
    obtain ⟨v, hv, -⟩ := Option.bind_eq_some_iff.mp hmethod
    have hpurged : c.PurgedSince method.generation history :=
      Classical.byContradiction fun hnot => hkeeps ⟨hlt, .inr hnot⟩
    rw [Location.versionOf_of_lt hlt, methodWithOrdinal,
      version_evolve_of_purged (hc.le_of_version hv) hpurged]
    rfl
  · -- The version could not be stored, and what stands for it belongs to no method
    rw [Location.versionOf_of_ge (Nat.le_of_not_lt hlt)]
    refine Option.filter_eq_none_iff.mpr fun m _ => ?_
    rw [versionMatches_saturated]
    exact Bool.false_ne_true

end Class

namespace StackTraceElement

/-- `StackTraceElement.materialize` of a method that is still found shows that method. -/
theorem materialize_of_live {c : Class} {ordinal version : Nat} {method : Method}
    (h : (c.methodWithOrdinal ordinal version).filter (versionMatches ·.generation version) =
      some method) (bci : Int) (name : String) :
    let e := materialize c ordinal version bci name
    e.status = .live ∧ e.methodName = method.name.text ∧ e.lineNumber = method.lineNumber bci ∧
      e.fileName = (c.sourceFileFor version).map (·.text) := by
  simp only [materialize, h, and_self]

/-- `StackTraceElement.materialize` of a method that is not found any more shows the stored name
    alone. -/
theorem materialize_of_redefined {c : Class} {ordinal version : Nat}
    (h : (c.methodWithOrdinal ordinal version).filter (versionMatches ·.generation version) =
      none) (bci : Int) (name : String) :
    let e := materialize c ordinal version bci name
    e.status = .redefined ∧ e.methodName = name ∧ e.lineNumber = unknownLine ∧
      e.fileName = none := by
  simp only [materialize, h, and_self]

end StackTraceElement

/-- `Method.lineNumber` at the start of the code is that of the synchronization entry, too. -/
theorem Method.lineNumber_max_zero (m : Method) (bci : Int) :
    m.lineNumber (max bci 0) = m.lineNumber bci := by
  have hnat : (max bci 0).toNat = bci.toNat := by omega
  simp only [lineNumber, lineAt, hnat]

namespace StoredFrame.Records

variable {f : StoredFrame} {c : Class} {method : Method} {bci : Int} {history : List ClassChange}
  {p : Program}

/-- `Throwable.liveMethod?` is the method that the frame still names, if it names one. -/
theorem liveMethod?_eq (hf : f.Records c method bci) (hp : p.get? c.id = some (c.evolve history)) :
    Throwable.liveMethod? p f =
      ((c.evolve history).methodWithOrdinal method.ordinal
          (Location.versionOf method.generation)).filter
        (versionMatches ·.generation (Location.versionOf method.generation)) := by
  rw [Throwable.liveMethod?, Throwable.resolve?, hf.holder_eq, hp, hf.ordinal_eq, hf.version_eq]
  rfl

/-- `StackTraceElement.ofFrame` shows a frame by what it records and by its class as it now is. -/
private theorem ofFrame_eq (hf : f.Records c method bci) (hp : p.get? c.id = some (c.evolve history)) :
    StackTraceElement.ofFrame p f = StackTraceElement.materialize (c.evolve history) method.ordinal
      (Location.versionOf method.generation) (max bci 0) method.name.text := by
  simp only [StackTraceElement.ofFrame, hf.holder_eq, hp, hf.ordinal_eq, hf.version_eq, hf.bci_eq,
    hf.name_eq]

/-- `StackTraceElement.ofFrame` is live if the version of the frame is kept; the file is that of the
    version in force. -/
private theorem live_of_keeps (hf : f.Records c method bci) (hc : c.Loaded)
    (hmethod : c.methodWithOrdinal method.ordinal method.generation = some method)
    (hp : p.get? c.id = some (c.evolve history)) (hkeeps : c.Keeps method.generation history) :
    let e := StackTraceElement.ofFrame p f
    e.status = .live ∧ Throwable.liveMethod? p f = some method ∧
      e.methodName = method.name.text ∧ e.lineNumber = method.lineNumber bci ∧
      e.fileName =
        if (c.evolve history).generation = method.generation then
          (c.evolve history).current.sourceFile.map (·.text)
        else none := by
  have hfilter := Class.filter_methodWithOrdinal_of_keeps hc hmethod hkeeps
  obtain ⟨hstatus, hname, hline, hfile⟩ :=
    StackTraceElement.materialize_of_live hfilter (max bci 0) method.name.text
  intro e
  simp only [e, hf.ofFrame_eq hp]
  refine ⟨hstatus, (hf.liveMethod?_eq hp).trans hfilter, hname, ?_, ?_⟩
  · -- The synchronization entry is stored as index 0
    rw [hline, Method.lineNumber_max_zero]
  -- The file is known for the version in force only
  · rw [hfile, Location.versionOf_of_lt hkeeps.1, Class.sourceFileFor]
    by_cases hcurrent : (c.evolve history).current.generation = method.generation
    · simp only [beq_iff_eq, Class.generation, hcurrent, if_true]
    · simp only [beq_iff_eq, Class.generation, hcurrent, if_false, Option.map_none]

/-- `StackTraceElement.ofFrame` shows the stored name alone if the version of the frame is not kept any
    more. -/
theorem redefined_of_not_keeps (hf : f.Records c method bci) (hc : c.Loaded)
    (hmethod : c.methodWithOrdinal method.ordinal method.generation = some method)
    (hp : p.get? c.id = some (c.evolve history)) (hkeeps : ¬c.Keeps method.generation history) :
    let e := StackTraceElement.ofFrame p f
    e.status = .redefined ∧ Throwable.liveMethod? p f = none ∧
      e.methodName = method.name.text ∧ e.lineNumber = unknownLine ∧ e.fileName = none := by
  have hfilter := Class.filter_methodWithOrdinal_of_not_keeps hc hmethod hkeeps
  obtain ⟨hstatus, hname, hline, hfile⟩ :=
    StackTraceElement.materialize_of_redefined hfilter (max bci 0) method.name.text
  intro e
  simp only [e, hf.ofFrame_eq hp]
  exact ⟨hstatus, (hf.liveMethod?_eq hp).trans hfilter, hname, hline, hfile⟩

end StoredFrame.Records

/-- What a class no longer keeps (`Class.Keeps`) it does not keep later either. -/
private theorem Class.not_keeps_append {c : Class} {generation : Nat} (hle : generation ≤ c.generation)
    {history : List ClassChange} (h : ¬c.Keeps generation history) (more : List ClassChange) :
    ¬c.Keeps generation (history ++ more) := by
  rintro ⟨hlt, hkept⟩
  have hnot : ¬c.PurgedSince generation (history ++ more) :=
    hkept.elim (not_purgedSince_of_current hle) fun hnot => hnot
  exact h ⟨hlt, .inr fun hpurged => hnot (hpurged.append more)⟩

/-- `StackTraceElement.ofFrame` of a frame that `Builder.push` has stored, in any later history of its
    class.  It is live exactly if its generation could be stored and is still in force or has not been
    purged since it was replaced (`Class.PurgedSince`); then it is shown as the method it was recorded
    from, with the line it had then, and with a source file as long as its version is in force.
    Otherwise it is shown by its stored name alone, and stays so in whatever follows. -/
theorem Builder.liveness_of_pushed {b b' : Builder} (hb : b.Opened) {m m' : Memory} {c : Class}
    (hc : c.Loaded) {method : Method} {bci : Int}
    (hmethod : c.methodWithOrdinal method.ordinal method.generation = some method)
    (hpush : b.push m c method bci = (.ok (), b', m')) :
    ∃ f, b'.newest? = some f ∧
      ∀ (history : List ClassChange) (p : Program), p.get? c.id = some (c.evolve history) →
        let e := StackTraceElement.ofFrame p f
        (e.status = .live ↔ method.generation < 65535 ∧
          ((c.evolve history).generation = method.generation ∨
            ¬c.PurgedSince method.generation history)) ∧
        (e.status = .live → Throwable.liveMethod? p f = some method ∧
          e.methodName = method.name.text ∧ e.lineNumber = method.lineNumber bci ∧
          e.fileName =
            if (c.evolve history).generation = method.generation then
              (c.evolve history).current.sourceFile.map (·.text)
            else none) ∧
        (e.status ≠ .live → e.status = .redefined ∧ Throwable.liveMethod? p f = none ∧
          e.methodName = method.name.text ∧ e.fileName = none ∧ e.lineNumber = -1 ∧
          ∀ (more : List ClassChange) (p' : Program),
            p'.get? c.id = some (c.evolve (history ++ more)) →
              (StackTraceElement.ofFrame p' f).status = .redefined) := by
  obtain ⟨f, hnewest, hf⟩ := (placed_push hb.placed hpush).2 rfl
  refine ⟨f, hnewest, fun history p hp => ?_⟩
  -- All hangs on whether the history keeps the version that was recorded
  by_cases hkeeps : c.Keeps method.generation history
  · obtain ⟨hstatus, hlive, hname, hline, hfile⟩ := hf.live_of_keeps hc hmethod hp hkeeps
    exact ⟨⟨fun _ => hkeeps, fun _ => hstatus⟩, fun _ => ⟨hlive, hname, hline, hfile⟩,
      fun hnot => absurd hstatus hnot⟩
  · obtain ⟨v, hv, -⟩ := Option.bind_eq_some_iff.mp hmethod
    obtain ⟨hstatus, hlive, hname, hline, hfile⟩ := hf.redefined_of_not_keeps hc hmethod hp hkeeps
    have hnotlive : (StackTraceElement.ofFrame p f).status ≠ .live :=
      fun h => nomatch hstatus.symm.trans h
    refine ⟨⟨fun h => absurd h hnotlive, fun h => absurd h hkeeps⟩, fun h => absurd h hnotlive,
      fun _ => ⟨hstatus, hlive, hname, hfile, hline, fun more p' hp' => ?_⟩⟩
    exact (hf.redefined_of_not_keeps hc hmethod hp'
      (Class.not_keeps_append (hc.le_of_version hv) hkeeps more)).1

/-- `Builder.liveness_of_pushed` for a class with one method: the frame is live after a redefinition and
    redefined after a purge. -/
theorem Builder.liveness_of_pushed_purged :
    ∃ (c : Class) (method : Method) (b b' : Builder) (m m' : Memory) (f : StoredFrame)
      (p p' : Program),
      b.push m c method 3 = (.ok (), b', m') ∧ b'.newest? = some f ∧
      p.get? c.id = some (c.evolve [.redefine [] none SymbolTable.empty]) ∧
      (StackTraceElement.ofFrame p f).status = .live ∧
      p'.get? c.id = some (c.evolve [.redefine [] none SymbolTable.empty, .purge]) ∧
      (StackTraceElement.ofFrame p' f).status = .redefined := by
  obtain ⟨c, s, method, hdefine, hmethod, hordinal, hgeneration, hcurrent, hid⟩ :
      ∃ c s method, Class.define { name := "acme/Widget", methods := [{ name := "run" }] } ⟨0⟩
          SymbolTable.empty = (.ok c, s) ∧ c.methodWithOrdinal 0 0 = some method ∧
        method.ordinal = 0 ∧ method.generation = 0 ∧ c.generation = 0 ∧ c.id = ⟨0⟩ :=
    ⟨_, _, _, rfl, rfl, rfl, rfl, rfl, rfl⟩
  -- A frame of its method is pushed into a new store
  have hmemory : (Memory.ofLimit none).NeverRefuses := ⟨⟨nofun, by decide⟩, rfl⟩
  obtain ⟨b, hstart⟩ := start_of_neverRefuses Nat.one_pos hmemory
  have hscope := hmemory.openScope.charged 1 (Chunk.heapBytes 1)
  have hblank := (start_ok hstart).1
  obtain ⟨b', m', hpush, -⟩ :=
    (hblank.spent hscope).push hscope hblank.sound c method (show Location.fits 3 = true by decide)
  obtain ⟨f, hnewest, hfate⟩ := liveness_of_pushed (.start hstart) (.define hdefine)
    (by rw [hordinal, hgeneration, hmethod]) hpush
  have hget : ∀ d : Class, (Program.mk SymbolTable.empty #[d] Table.empty).get? c.id = some d := by
    intro d
    rw [hid]
    rfl
  have hafter : (c.evolve [.redefine [] none SymbolTable.empty]).generation = 1 :=
    congrArg (· + 1) hcurrent
  have hlater : (c.evolve [.redefine [] none SymbolTable.empty, .purge]).generation = 1 := hafter
  refine ⟨c, method, b, b', _, m', f, _, _, hpush, hnewest, hget _, ?_, hget _, ?_⟩
  · -- Nothing has been purged yet
    refine (hfate _ _ (hget _)).1.mpr ⟨by rw [hgeneration]; decide, .inr ?_⟩
    rintro ⟨before, after, heq, -⟩
    have hmem : ClassChange.purge ∈ [.redefine [] none SymbolTable.empty] :=
      heq ▸ List.mem_append_right before List.mem_cons_self
    exact nomatch List.mem_singleton.mp hmem
  · -- The purge comes after the redefinition
    obtain ⟨hiff, -, hnot⟩ := hfate _ _ (hget _)
    refine (hnot fun hlive => ?_).1
    obtain ⟨-, hkept⟩ := hiff.mp hlive
    rw [hgeneration, hlater] at hkept
    refine hkept.elim (fun h => nomatch h) fun hnever => hnever ⟨[_], [], rfl, ?_⟩
    rw [hafter]
    exact Nat.one_ne_zero

end StackTrace
