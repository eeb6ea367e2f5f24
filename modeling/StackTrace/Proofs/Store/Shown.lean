import StackTrace.Proofs.Program.Saturation
import StackTrace.Proofs.Store.Interleaving

/-!
# A method shown as it runs, and as it was recorded

A method that is running is shown at once from what is known of it.  A recorded one has been packed,
kept in a slot of a chunk and read back, and its class may have been redefined and purged since.  Both
are shown alike at any one moment, whatever has become of the class: what a running method is shown
as is looked up by its ordinal and the version that its generation would be stored as, too.

## Key results

- `Builder.frames_of_run`: a store replays what was pushed, if its chunks are left only when full
- `StackTraceElement.ofMethod_eq_ofFrame`: the element of a method and that of a frame that records it
- `Throwable.printed_of_traced`: where the frames of a condition stand in what is printed
- `Builder.shown_of_pushed`: the elements and the lines, for all that was pushed
-/

namespace StackTrace

/-! ## What is replayed of a history -/

/-- By `Sheets.ofSteps`, a builder that is never asked to go on in a further chunk fills all chunks that
    it leaves. -/
private theorem Sheets.full_ofSteps {size : Nat} (hpos : 0 < size) {steps : List BuildStep}
    (hsteps : ∀ step ∈ steps, step ≠ .expand) :
    (∀ sheet ∈ (ofSteps size steps).left, sheet.length = size) ∧
      (ofSteps size steps).last.length ≤ size := by
  -- Induction on the history from its end, where the last step writes
  induction steps using List.reverseRecOn with
  | nil => exact ⟨fun _ hsheet => (nomatch hsheet), Nat.zero_le _⟩
  | append_singleton steps step ih =>
    obtain ⟨hleft, hlast⟩ := ih fun step' hstep' => hsteps step' (List.mem_append_left _ hstep')
    rw [ofSteps_append_singleton]
    cases step with
    | expand => exact absurd rfl (hsteps .expand (List.mem_append_right steps List.mem_cons_self))
    | markHiddenTop => exact ⟨hleft, hlast⟩
    | push holder method bci =>
      cases hframe : Recording.frame? ⟨holder, method, bci⟩ with
      | none =>
        simp only [note, hframe]
        exact ⟨hleft, hlast⟩
      | some f =>
        rw [note_of_frame? hframe, turnIfFull]
        split
        · rename_i hroom
          refine ⟨hleft, ?_⟩
          rw [write, List.length_append]
          exact hroom
        · -- The sheet that is left is full, and the new one has the frame alone
          rename_i hfull
          refine ⟨fun sheet hsheet => ?_, hpos⟩
          rcases List.mem_append.mp hsheet with hsheet | hsheet
          · exact hleft sheet hsheet
          · rw [List.mem_singleton.mp hsheet]
            exact Nat.le_antisymm hlast (Nat.le_of_not_lt hfull)

namespace Builder

/-- `Builder.succeeded` are some of the events. -/
private theorem succeeded_sublist (events : List BuildEvent) (b : Builder) (m : Memory) :
    (succeeded events b m).Sublist events := by
  induction events generalizing b m with
  | nil => exact .slnil
  | cons event events ih =>
    simp only [succeeded]
    split
    · exact (ih _ _).cons_cons event
    · exact (ih _ _).cons event

/-- What was pushed in a `Builder.run` is replayed in order, if no step but a push has moved on to a
    further chunk. -/
theorem frames_of_run {b₀ : Builder} {m₀ : Memory} (hbegun : b₀.Begun m₀) {events : List BuildEvent}
    (hevents : .step .expand ∉ events) (m : Memory) :
    List.Forall₂ StoredFrame.IsOf ((run events b₀ m₀).1.finish m).1.frames
      (recordings (stepsOf (succeeded events b₀ m₀))) := by
  have hlaid := hbegun.laidOut.run hbegun.depth_pos events
  rw [List.nil_append] at hlaid
  -- Sheets that are left full cover all that was written before
  refine (hlaid.replaysOver m).of_full (Sheets.full_ofSteps hlaid.usable.chunkSize_pos ?_).1
  rintro step hstep rfl
  obtain ⟨event, hevent, heq⟩ := List.mem_filterMap.mp hstep
  have hmem := (succeeded_sublist events b₀ m₀).subset hevent
  cases event with
  | step step =>
    obtain rfl := Option.some.inj heq
    exact hevents hmem
  | heap change => cases heq

end Builder

/-! ## One element -/

section Element

variable {p : Program} {alive : ClassId → Bool} {c now : Class} {m : Method} {bci : Int}
  {f : StoredFrame}

/-- The class that `Program.holder` gives is the one that `Program.get?` finds. -/
private theorem Program.get?_of_holder (h : p.holder alive m = some now) : p.get? m.holder = some now := by
  unfold holder at h
  split at h
  · exact h
  · cases h

/-- Only the start of the code and the synchronization entry are stored alike, and
    `StackTraceElement.materialize` shows these alike. -/
private theorem StackTraceElement.materialize_max_zero (ordinal version : Nat) (name : String) :
    materialize c ordinal version (max bci 0) name = materialize c ordinal version bci name := by
  simp only [materialize, Method.lineNumber_max_zero]

/-- `StackTraceElement.ofMethod` shows a method that runs as `StackTraceElement.ofFrame` shows a frame
    that records it, as long as its class is there. -/
theorem StackTraceElement.ofMethod_eq_ofFrame (hf : f.Records c m bci) (hholder : m.holder = c.id)
    (hnow : p.holder alive m = some now) : ofMethod p alive m bci = some (ofFrame p f) := by
  have hget : p.get? f.holder = some now := by
    rw [hf.holder_eq, ← hholder]
    exact Program.get?_of_holder hnow
  simp only [ofMethod, ofFrame, hnow, hget, Option.map_some, hf.ordinal_eq, hf.version_eq, hf.bci_eq,
    hf.name_eq, materialize_max_zero]

end Element

/-! ## The printed text -/

/-- `String.join` of lines, with the line of one entry among them. -/
private theorem join_map_of_getElem? {α : Type} {xs : List α} {i : Nat} {x : α} (h : xs[i]? = some x)
    (line : α → String) : String.join (xs.map line) =
      String.join ((xs.take i).map line) ++ (line x ++ String.join ((xs.drop (i + 1)).map line)) := by
  obtain ⟨hi, rfl⟩ := List.getElem?_eq_some_iff.mp h
  conv => lhs; rw [← List.take_append_drop i xs]
  rw [List.map_append, String.join_append, List.drop_eq_getElem_cons hi, List.map_cons,
    String.join_cons]

namespace Throwable

/-- What comes before the header of a condition, behind those that it caused. -/
def leadAfter : List Condition → String
  | [] => ""
  | _ :: _ => "Caused by: "

section Printed

variable {p : Program} {c : Condition} {s : Store}

/-- `printChain` of a condition with a trace: the header, the frames, and then the causes. -/
theorem printChain_of_traced (hc : c.trace = some s) (lead : String) (causes : List Condition) :
    printChain p lead (c :: causes) = lead ++ c.text p ++ "\n" ++
      String.join ((c.elements p).map frameLine) ++ printChain p "Caused by: " causes := by
  simp only [printChain, hc]

/-- `printChain` goes on behind conditions that all have a trace. -/
theorem printChain_append {before : List Condition} (hbefore : ∀ d ∈ before, d.trace.isSome)
    (c : Condition) (causes : List Condition) (lead : String) :
    printChain p lead (before ++ c :: causes) = printChain p lead before ++
      printChain p (if before = [] then lead else "Caused by: ") (c :: causes) := by
  induction before generalizing lead with
  | nil => rw [List.nil_append, if_pos rfl, printChain, String.empty_append]
  | cons d before ih =>
    obtain ⟨hd, hbefore⟩ := List.forall_mem_cons.mp hbefore
    obtain ⟨s, hs⟩ := Option.isSome_iff_exists.mp hd
    have hlead : (if before = [] then "Caused by: " else "Caused by: ") = "Caused by: " := ite_self _
    rw [List.cons_append, printChain_of_traced hs, printChain_of_traced hs, ih hbefore, hlead,
      if_neg (List.cons_ne_nil d before), ← String.append_assoc]

/-- Where the frames of a condition stand in what `Throwable.printed` prints. -/
theorem printed_of_traced {t : Throwable} {before causes : List Condition}
    (hchain : t.chain = before ++ c :: causes) (hbefore : ∀ d ∈ before, d.trace.isSome)
    (hc : c.trace = some s) :
    t.printed p = printChain p "" before ++ leadAfter before ++ c.text p ++ "\n" ++
      String.join ((c.elements p).map frameLine) ++ printChain p "Caused by: " causes := by
  have hlead : (if before = [] then "" else "Caused by: ") = leadAfter before := by
    cases before with
    | nil => rfl
    | cons d before => rfl
  rw [printed, hchain, printChain_append hbefore, hlead, printChain_of_traced hc]
  simp only [String.append_assoc]

end Printed

end Throwable

/-- `StackTraceElement.ofMethod` shows a method as it runs as `StackTraceElement.ofFrame` shows it where
    it was recorded.  After any events in which no step but a push has moved on to a further chunk, the
    finished store replays, in order, what was pushed.  At any later moment, a method whose class is
    alive then is shown, in all that an element tells, as any frame of the store that records it; and
    the line that is printed for the method is the one that the frame has where the trace is printed,
    for a throwable or for what caused it. -/
theorem Builder.shown_of_pushed {b₀ : Builder} {m₀ : Memory} (hbegun : b₀.Begun m₀)
    (events : List BuildEvent) :
    let out := run events b₀ m₀
    let s := (out.1.finish out.2).1
    (.step .expand ∉ events →
      List.Forall₂ StoredFrame.IsOf s.frames (recordings (stepsOf (succeeded events b₀ m₀)))) ∧
    ∀ (i : Nat) (f : StoredFrame) (c : Class) (m : Method) (bci : Int), s.frames[i]? = some f →
      f.IsOf ⟨c, m, bci⟩ → m.holder = c.id →
      ∀ (p : Program) (alive : ClassId → Bool) (now : Class), p.holder alive m = some now →
        StackTraceElement.ofMethod p alive m bci = some (StackTraceElement.ofFrame p f) ∧
        ∀ (t : Throwable) (before causes : List Condition) (d : Condition),
          t.chain = before ++ d :: causes → (∀ e ∈ before, e.trace.isSome) → d.trace = some s →
          (d.elements p)[i]? = StackTraceElement.ofMethod p alive m bci ∧
          t.printed p =
            Throwable.printChain p "" before ++ Throwable.leadAfter before ++ d.text p ++ "\n" ++
            String.join (((d.elements p).take i).map Throwable.frameLine) ++
            Throwable.printMethod p alive m bci ++
            String.join (((d.elements p).drop (i + 1)).map Throwable.frameLine) ++
            Throwable.printChain p "Caused by: " causes := by
  intro out s
  refine ⟨fun hevents => frames_of_run hbegun hevents out.2, ?_⟩
  intro i f c m bci hi hf hholder p alive now hnow
  have hsame := StackTraceElement.ofMethod_eq_ofFrame hf hholder hnow
  refine ⟨hsame, fun t before causes d hchain hbefore hd => ?_⟩
  -- The element of the frame has its place in the trace, and the line of it in what is printed
  have helement : (d.elements p)[i]? = some (StackTraceElement.ofFrame p f) := by
    simp only [Condition.elements, Condition.frames, hd, Option.map_some, Option.getD_some,
      List.getElem?_map, hi]
  have hline : Throwable.printMethod p alive m bci =
      Throwable.frameLine (StackTraceElement.ofFrame p f) := by
    rw [Throwable.printMethod, hsame]
  refine ⟨helement.trans hsame.symm, ?_⟩
  rw [Throwable.printed_of_traced hchain hbefore hd, join_map_of_getElem? helement, hline]
  simp only [String.append_assoc]

/-- `Builder.shown_of_pushed` where a method of a generation that cannot be stored is shown as redefined
    while it runs, though it is in force, and so is a frame of it. -/
theorem Builder.shown_of_pushed_saturated : ∃ (b₀ : Builder) (m₀ : Memory) (c : Class) (m : Method)
    (p : Program) (t : Throwable) (e : StackTraceElement), b₀.Begun m₀ ∧
    let out := run ([.markHiddenTop, .push c m (-1)].map .step) b₀ m₀
    t.head.trace = some (out.1.finish out.2).1 ∧ p.holder (fun _ => true) m = some c ∧
    m ∈ c.current.methods ∧ m.generation = 65536 ∧
    StackTraceElement.ofMethod p (fun _ => true) m (-1) = some e ∧ e.status = .redefined ∧
    (t.elements p)[0]? = some e ∧
    t.printed p = t.text p ++ "\n" ++ Throwable.printMethod p (fun _ => true) m (-1) := by
  obtain ⟨c, m, -, h, -⟩ := Class.exists_runsOnly_saturated
  have hmemory : (Memory.ofLimit none).NeverRefuses := ⟨⟨nofun, by decide⟩, rfl⟩
  obtain ⟨b₀, hstart⟩ := start_of_neverRefuses Nat.two_pos hmemory
  have hscope := hmemory.openScope.charged 1 (Chunk.heapBytes 2)
  have hbegun := Begun.start hstart
  obtain ⟨hreplayed, hshown⟩ :=
    shown_of_pushed hbegun ([.markHiddenTop, .push c m (-1)].map .step)
  -- The one frame is stored, and told again
  replace hreplayed := hreplayed (by simp)
  rw [succeeded_of_neverRefuses hscope, stepsOf_map_step] at hreplayed
  generalize hs : (Builder.finish _ _).1 = s at hreplayed hshown
  obtain ⟨f, rest, hf, hnil, hframes⟩ := List.forall₂_cons_right_iff.mp hreplayed
  obtain rfl := List.forall₂_nil_right_iff.mp hnil
  have hholder : (Program.mk SymbolTable.empty #[c] Table.empty).holder (fun _ => true) m =
      some c := by
    rw [Program.holder, if_pos rfl, h.holder_eq]
    exact h.get?_program
  have hfirst : s.frames[0]? = some f := by rw [hframes]; rfl
  obtain ⟨helement, hprinted⟩ := hshown 0 f c m (-1) hfirst hf h.holder_eq _ _ c hholder
  let t : Throwable := ⟨⟨c.id, none, some s, 1, false⟩, []⟩
  obtain ⟨hshows, htext⟩ := hprinted t [] [] t.head rfl (fun _ hd => nomatch hd) rfl
  have hmem : m ∈ c.current.methods := by
    rw [h.methods_eq]
    exact Array.mem_singleton.mpr rfl
  have hsaturated : ¬c.Keeps m.generation [] := by
    rw [h.method_generation_eq]
    exact fun hkeeps => absurd hkeeps.1 (by decide)
  have hredefined := (hf.redefined_of_not_keeps h.loaded h.methodWithOrdinal_eq h.get?_program
    hsaturated).1
  refine ⟨b₀, _, c, m, _, t, _, hbegun, congrArg some hs.symm, hholder, hmem, h.method_generation_eq,
    helement, hredefined, hshows.trans helement, ?_⟩
  have hlength : (t.head.elements (Program.mk SymbolTable.empty #[c] Table.empty)).length = 1 := by
    simp [Condition.elements, Condition.frames, t, hframes]
  rw [htext, List.take_zero, List.drop_of_length_le (Nat.le_of_eq hlength)]
  simp only [List.map_nil, String.join_nil, Throwable.printChain, Throwable.leadAfter,
    String.empty_append, String.append_empty, Throwable.text]

end StackTrace
