import StackTrace.Proofs.Stack.Walker

/-!
# What was recorded on a stack

A stack as it was built: which method was interpreted where, and of compiled code the call sites that it
was made from.  The activations on it are then known without any debug info being read, and a walk
gives just these, up to the first frame that stopped where no call site was recorded.

## Key results

- `RecordedFrame.activations_frame`: what is read off a frame is what was recorded
- `Walker.collect_recorded`: a walk gives what was recorded on the stack
-/

namespace StackTrace

/-- The activations of a call site in compiled code, innermost first. -/
def CallSite.activations (site : CallSite) (method : Method) : List Activation :=
  match site.scopes method with
  | [] => []
  | physical :: inlined =>
    (inlined.reverse.map fun a => ⟨a.1, a.2, .compiledInlined⟩) ++
      [⟨physical.1, physical.2, .compiledPhysical⟩]

/-- A frame together with what its code was made from. -/
inductive RecordedFrame where
  | entry
  | stub (name : String)
  | interpreted (method : Method) (bci : Int)
  | wrapper (method : Method) (pc : Nat)
  | compiled (method : Method) (sites : List CallSite) (pc : Nat)

namespace RecordedFrame

/-- The frame as it is on the stack. -/
def frame : RecordedFrame → Frame
  | entry => .entry
  | stub name => .stub name
  | interpreted method bci => .interpreted method bci
  | wrapper method pc => .compiled (.wrapper method) pc
  | compiled method sites pc => .compiled (.ofCallSites method sites) pc

/-- Whether what was recorded fits the format of debug info: `CallSite.Encodable`, and offsets of 32
    bits. -/
def Encodable : RecordedFrame → Prop
  | compiled method sites _ => (∀ site ∈ sites, site.Encodable) ∧
      (CompiledCode.ofCallSites method sites).scopes.size ≤ 2 ^ 32
  | _ => True

/-- The activations that a frame stands for, or why there is no telling. -/
def activations : RecordedFrame → Except DebugInfo.Error (List Activation)
  | entry | stub _ => .ok []
  | interpreted method bci => .ok [⟨method, bci, .interpreted⟩]
  | wrapper method _ => .ok [⟨method, 0, .nativeEntry⟩]
  | compiled method sites pc =>
    match sites.find? (·.pc == pc) with
    | none => .error (.missingPcDesc pc)
    | some site => .ok (site.activations method)

/-- What a walk of a recorded stack is to give, topmost frame first: `RecordedFrame.activations` whose
    class is alive, down to the first frame that cannot be told. -/
def items (alive : ClassId → Bool) : List RecordedFrame → List (Except DebugInfo.Error Activation)
  | [] => []
  | f :: below =>
    match f.activations with
    | .error e => [.error e]
    | .ok as => (as.filter fun a => alive a.method.holder).map .ok ++ items alive below

end RecordedFrame

/-- `CompiledCode.Decodes` gives the activations of the call site that the scopes were recorded for. -/
private theorem CompiledCode.Decodes.map_activation {c : CompiledCode} {offset : Nat} {scopes : List Scope}
    (h : c.Decodes offset scopes) {site : CallSite} {method : Method}
    (hplaces : scopes.map Scope.place = (site.scopes method).reverse) :
    scopes.map Scope.activation = site.activations method := by
  unfold CallSite.activations
  cases hscopes : site.scopes method with
  | nil => exact absurd hscopes (site.scopes_ne_nil method)
  | cons first inner =>
    rw [hscopes, List.reverse_cons] at hplaces
    -- The physical method was recorded first, so it is decoded last
    obtain ⟨inlined, outermost, rfl, hinlined, houtermost⟩ := List.map_eq_append_iff.mp hplaces
    obtain ⟨physical, rfl, hphysical⟩ := List.map_eq_singleton_iff.mp houtermost
    have hlast : physical.isPhysical = true := by
      apply (h.isPhysical_iff inlined.length physical (by simp)).mpr
      simp
    -- Every other scope was inlined
    have hothers : ∀ s ∈ inlined, s.activation = ⟨s.place.1, s.place.2, .compiledInlined⟩ := by
      intro s hs
      obtain ⟨i, hi⟩ := List.mem_iff_getElem?.mp hs
      have hlt : i < inlined.length := (List.getElem?_eq_some_iff.mp hi).1
      have hiff := h.isPhysical_iff i s ((List.getElem?_append_left hlt).trans hi)
      have hnot : s.isPhysical = false := by
        rw [← Bool.not_eq_true, hiff, List.length_append, List.length_singleton]
        omega
      simp [Scope.activation, Scope.place, hnot]
    have houter : physical.activation = ⟨first.1, first.2, .compiledPhysical⟩ := by
      simp [← hphysical, Scope.activation, Scope.place, hlast]
    rw [List.map_append, List.map_congr_left hothers, List.map_singleton, houter]
    simp only [← hinlined, List.map_map]
    rfl

namespace RecordedFrame

/-- `Frame.activations` of a frame is what was recorded, and all of it can be read. -/
theorem activations_frame {f : RecordedFrame} (hf : f.Encodable) :
    f.frame.Readable ∧
      match f.activations with
      | .ok as => f.frame.activations = ⟨as, none⟩
      | .error e => f.frame.activations = ⟨[], some e⟩ := by
  cases f with
  | entry => exact ⟨trivial, rfl⟩
  | stub name => exact ⟨trivial, rfl⟩
  | interpreted method bci => exact ⟨trivial, rfl⟩
  | wrapper method pc =>
    refine ⟨?_, rfl⟩
    intro hplain
    cases hplain
  | compiled method sites pc =>
    obtain ⟨hbcis, hsize⟩ := hf
    -- The entry that is found, and the call site that it was written for
    have hfound := CompiledCode.decodes_ofCallSites method hbcis hsize pc
    have hplain : (CompiledCode.ofCallSites method sites).nativeWrapper = false := rfl
    simp only [frame, activations, Frame.Readable, Frame.activations, hplain]
    generalize (CompiledCode.ofCallSites method sites).pcDescAt pc = desc? at hfound ⊢
    generalize sites.find? (·.pc == pc) = site? at hfound ⊢
    cases hfound with
    | none =>
      refine ⟨?_, rfl⟩
      intro _ desc hdesc
      cases hdesc
    | some hleads =>
      obtain ⟨-, scopes, hdecodes, hplaces⟩ := hleads
      have hfrom := hdecodes.chain.scopesFrom_eq hdecodes.senders_decrease
      refine ⟨?_, ?_⟩
      · intro _ desc hdesc
        cases hdesc
        exact ⟨scopes, hdecodes⟩
      · simp [hfrom, hdecodes.map_activation hplaces]

/-- `RecordedFrame.items` is what the list form of a walk visits. -/
private theorem items_eq (alive : ClassId → Bool) {stack : List RecordedFrame}
    (hstack : ∀ f ∈ stack, f.Encodable) :
    items alive stack = ((Walk.ofStack (stack.map frame)).visited alive).map .ok ++
      (Walk.ofStack (stack.map frame)).error.toList.map .error := by
  induction stack with
  | nil => rfl
  | cons f below ih =>
    obtain ⟨hf, hbelow⟩ := List.forall_mem_cons.mp hstack
    obtain ⟨-, hread⟩ := activations_frame hf
    rw [items]
    split at hread
    · rename_i as has
      rw [has, List.map_cons, Walk.ofStack_cons hread, ih hbelow]
      simp [Walk.visited]
    · rename_i e he
      rw [he, List.map_cons, Walk.ofStack_cons_error hread]
      simp [Walk.visited]

end RecordedFrame

namespace Walker

/-- `Walker.collect` of any stack whose code was made from call sites, or wraps a native method, comes
    to an end, in no more turns than there are frames and bytes of scope records.  It gives
    `RecordedFrame.items`: nothing for entries and stubs, and else the activations of each frame from
    the top, innermost first, but for those whose class is gone.  The only thing that can cut it short
    is code that stopped where no call site was recorded; that gives one error, after which there is
    nothing.  A `Walker.next` that once gave nothing never gives anything again. -/
theorem collect_recorded (alive : ClassId → Bool) {stack : List RecordedFrame}
    (hstack : ∀ f ∈ stack, f.Encodable) :
    (∃ last, (∀ turns, turnsFor (stack.map RecordedFrame.frame) ≤ turns →
        (ofStack (stack.map RecordedFrame.frame)).collect alive turns =
          some (RecordedFrame.items alive stack, last)) ∧
      ∀ alive' turns, last.next alive' turns = some (none, last)) ∧
    ∀ (turns : Nat) (w w' : Walker), w.next alive turns = some (none, w') →
      ∀ alive' turns', w'.next alive' turns' = some (none, w') := by
  have hreadable : ∀ f ∈ stack.map RecordedFrame.frame, f.Readable := by
    intro f hf
    obtain ⟨recorded, hrecorded, rfl⟩ := List.mem_map.mp hf
    exact (RecordedFrame.activations_frame (hstack recorded hrecorded)).1
  obtain ⟨last, hcollect⟩ := collect_ofStack alive hreadable
  rw [← RecordedFrame.items_eq alive hstack] at hcollect
  have hover : last.IsOver := isOver_of_collect hcollect
  refine ⟨⟨last, fun turns hturns => collect_mono hturns hcollect, fun _ => hover.next_eq⟩, ?_⟩
  intro turns w w' hnone alive'
  exact (isOver_of_next_none hnone).next_eq

/-- `collect_recorded` for a stub and a frame of compiled code that lie on a nested entry; the innermost
    of the three methods at the call site belongs to a class that is gone, the others do not.  Below,
    code has stopped where no call site was recorded, so that the frame under it is not reached. -/
theorem collect_recorded_cut :
    let method (cls : Nat) (name : String) (place : Nat) : Method :=
      ⟨⟨cls⟩, 0, place, place, ⟨name, place⟩, ⟨"()V", 9⟩, {}, 64, []⟩
    let outer := method 0 "outer" 0
    let sites : List CallSite :=
      [⟨40, [(outer, 12), (method 0 "middle" 1, 7), (method 1 "gone" 0, -1)]⟩, ⟨8, []⟩]
    let stack : List RecordedFrame :=
      [.stub "call", .compiled outer sites 40, .entry, .compiled outer sites 9, .interpreted outer 3,
        .entry]
    let alive (id : ClassId) : Bool := id.index == 0
    (∀ f ∈ stack, f.Encodable) ∧ ∃ last,
      (ofStack (stack.map RecordedFrame.frame)).collect alive
          (turnsFor (stack.map RecordedFrame.frame)) =
        some ([.ok ⟨method 0 "middle" 1, 7, .compiledInlined⟩, .ok ⟨outer, 12, .compiledPhysical⟩,
          .error (.missingPcDesc 9)], last) ∧ last.next alive 0 = some (none, last) := by
  intro method outer sites stack alive
  -- The two conditions of `Encodable`: indices within their range, and records within the offsets
  have hbcis : ∀ site ∈ sites, site.Encodable := by
    simp only [sites, CallSite.Encodable, List.forall_mem_cons, List.not_mem_nil]
    simp
  have hsize : (CompiledCode.ofCallSites outer sites).scopes.size ≤ 2 ^ 32 := by
    decide +kernel
  have hstack : ∀ f ∈ stack, f.Encodable := by
    simp only [stack, RecordedFrame.Encodable, List.forall_mem_cons, List.not_mem_nil]
    exact ⟨trivial, ⟨hbcis, hsize⟩, trivial, ⟨hbcis, hsize⟩, trivial, trivial, fun _ hf => hf.elim⟩
  obtain ⟨⟨last, hcollect, hover⟩, -⟩ := collect_recorded alive hstack
  exact ⟨hstack, last, hcollect _ (Nat.le_refl _), hover alive 0⟩

end Walker

end StackTrace
