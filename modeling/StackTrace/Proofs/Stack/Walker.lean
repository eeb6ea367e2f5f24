import StackTrace.Proofs.DebugInfo.CallSites
import StackTrace.Stack.Walker

/-!
# What a walker comes across

A walker turns until it finds something, is asked again, and stops for good when nothing is left.  What it
gives from one turn on is settled by that turn and by what it gives afterwards; each turn is one more
that has to be allowed.  The scopes of one piece of compiled code take as many turns as its chain is
long, and no chain is longer than the bytes of its records, so on code that was built from call sites
every walk ends.

What it comes across on a stack that can be read is what the list form of a walk visits.

## Key results

- `Walker.collect_mono`: once there are turns enough, more of them make no difference
- `Walker.isOver_of_next_none`: a walker that gave nothing has nothing left
- `Walker.collect_ofStack`: a walker and the list form of a walk agree
-/

namespace StackTrace

namespace Walker

variable {alive : ClassId → Bool}

/-! ### Turn by turn -/

/-- Whether a walker has nothing left: it is `done`, and nothing is `pending`. -/
def IsOver (w : Walker) : Prop := w.done = true ∧ w.pending = none

/-- `Walker.turn` of a walker that has nothing left ends. -/
private theorem IsOver.turn_eq {w : Walker} (h : w.IsOver) : w.turn alive = (.ended, w) := by
  simp [turn, h.1, h.2]

/-- `Walker.next` of a walker that has nothing left gives nothing, and leaves it as it is. -/
theorem IsOver.next_eq {w : Walker} (h : w.IsOver) (turns : Nat) :
    w.next alive turns = some (none, w) := by
  simp [next, h.1, h.2]

/-- A `Walker.turn` that finds nothing more to do leaves nothing. -/
private theorem isOver_of_ended {w w' : Walker} (h : w.turn alive = (.ended, w')) : w'.IsOver := by
  -- A visit gives an activation or goes on; it does not end the walk
  have hvisit : ∀ a, Turn.visit alive a ≠ .ended := by
    intro a
    unfold Turn.visit
    split <;> nofun
  unfold turn at h
  split at h
  · -- A scope is found or passed over, or cannot be read
    unfold expand at h
    split at h
    · cases h
    · exact absurd (congrArg Prod.fst h) (hvisit _)
  · rename_i hpending
    split at h
    · rename_i hdone
      cases h
      exact ⟨hdone, hpending⟩
    · split at h
      · cases h
        exact ⟨rfl, hpending⟩
      · -- Of all frames only an entry at the bottom ends the walk
        rename_i f rest _
        cases f with
        | entry =>
          simp only [visit] at h
          split at h
          · cases h
            exact ⟨rfl, hpending⟩
          · cases h
        | stub => cases h
        | interpreted => exact absurd (congrArg Prod.fst h) (hvisit _)
        | compiled code pc =>
          simp only [visit] at h
          split at h
          · exact absurd (congrArg Prod.fst h) (hvisit _)
          · split at h <;> cases h

/-- `Walker.next` need not ask whether anything is left, for the loop finds that out as well. -/
private theorem next_eq_step (turns : Nat) (w : Walker) :
    w.next alive turns =
      match w.step alive turns with
      | none => none
      | some (.ok found, w') => some (found.map .ok, w')
      | some (.error e, w') => some (some (.error e), { w' with pending := none, done := true }) := by
  by_cases hasks : (w.done && w.pending.isNone) = true
  · have hover : w.IsOver := by simpa [IsOver] using hasks
    have hstep : w.step alive turns = some (.ok none, w) := by
      unfold step
      rw [hover.turn_eq]
    rw [hover.next_eq, hstep]
    rfl
  · unfold next
    exact if_neg hasks

/-- `Walker.next` after a turn in vain is as if the walker had begun there, with one turn less
    allowed. -/
private theorem next_of_onward {w w' : Walker} (hturn : w.turn alive = (.onward, w')) (turns : Nat) :
    w.next alive (turns + 1) = w'.next alive turns := by
  have hstep : w.step alive (turns + 1) = w'.step alive turns := by
    rw [step, hturn]
  rw [next_eq_step, next_eq_step, hstep]

/-! ### Turns enough -/

/-- `Walker.step` comes to the same with more turns. -/
private theorem step_mono {turns more : Nat} (hle : turns ≤ more) {w : Walker} {r}
    (h : w.step alive turns = some r) : w.step alive more = some r := by
  fun_induction step alive turns w generalizing more with
  | case1 w w' hturn => cases h
  | case2 w w' hturn turns ih =>
    obtain ⟨more, rfl⟩ : ∃ n, more = n + 1 := ⟨more - 1, by omega⟩
    rw [step, hturn]
    exact ih (Nat.le_of_succ_le_succ hle) h
  | case3 turns w a w' hturn | case4 turns w e w' hturn | case5 turns w w' hturn =>
    unfold step
    rw [hturn]
    exact h

/-- `Walker.next` comes to the same with more turns. -/
private theorem next_mono {turns more : Nat} (hle : turns ≤ more) {w : Walker} {r}
    (h : w.next alive turns = some r) : w.next alive more = some r := by
  rw [next_eq_step] at h ⊢
  cases hstep : w.step alive turns with
  | none =>
    rw [hstep] at h
    cases h
  | some stop =>
    rw [step_mono hle hstep]
    rw [hstep] at h
    exact h

/-- `Walker.collect` ends where `Walker.next` gives nothing. -/
private theorem collect_of_next_none {turns : Nat} {w last : Walker}
    (hnext : w.next alive turns = some (none, last)) : w.collect alive turns = some ([], last) := by
  unfold collect
  simp only [hnext]

/-- `Walker.collect` begins with what `Walker.next` gives. -/
private theorem collect_of_next_some {turns : Nat} {w w' last : Walker} {item items}
    (hnext : w.next alive (turns + 1) = some (some item, w'))
    (hrest : w'.collect alive turns = some (items, last)) :
    w.collect alive (turns + 1) = some (item :: items, last) := by
  unfold collect
  simp only [hnext, hrest, Option.map_some]

/-- `Walker.collect` comes to an end with nothing, or after an item and the rest. -/
theorem collect_cases {turns : Nat} {w last : Walker} {items}
    (h : w.collect alive turns = some (items, last)) :
    match items with
    | [] => w.next alive turns = some (none, last)
    | item :: rest => ∃ n w', turns = n + 1 ∧ w.next alive turns = some (some item, w') ∧
        w'.collect alive n = some (rest, last) := by
  unfold collect at h
  split at h
  · cases h
  · rename_i hnext
    cases h
    exact hnext
  · rename_i item w' hnext
    cases turns with
    | zero => cases h
    | succ n =>
      obtain ⟨⟨rest, last'⟩, hrest, heq⟩ := Option.map_eq_some_iff.mp h
      cases heq
      exact ⟨n, w', rfl, hnext, hrest⟩

/-- `Walker.collect` comes to the same with more turns. -/
theorem collect_mono {turns more : Nat} (hle : turns ≤ more) {w last : Walker} {items}
    (h : w.collect alive turns = some (items, last)) :
    w.collect alive more = some (items, last) := by
  induction items generalizing turns more w with
  | nil => exact collect_of_next_none (next_mono hle (collect_cases h))
  | cons item rest ih =>
    obtain ⟨n, w', rfl, hnext, hrest⟩ := collect_cases h
    obtain ⟨more, rfl⟩ : ∃ k, more = k + 1 := ⟨more - 1, by omega⟩
    exact collect_of_next_some (next_mono hle hnext) (ih (Nat.le_of_succ_le_succ hle) hrest)

/-! ### A walk turn by turn -/

/-- `Walker.collect` before a turn in vain. -/
private theorem collect_of_onward {w w' last : Walker} (hturn : w.turn alive = (.onward, w')) {turns : Nat}
    {items} (hrest : w'.collect alive turns = some (items, last)) :
    w.collect alive (turns + 1) = some (items, last) := by
  have hnext := next_of_onward hturn turns
  cases items with
  | nil => exact collect_of_next_none (hnext.trans (collect_cases hrest))
  | cons item rest =>
    -- Behind the first item one turn more is allowed than is needed
    obtain ⟨n, w'', rfl, hitem, hbehind⟩ := collect_cases hrest
    exact collect_of_next_some (hnext.trans hitem) (collect_mono (Nat.le_succ n) hbehind)

/-- `Walker.collect` before a turn that finds an activation. -/
private theorem collect_of_found {w w' : Walker} {a : Activation} (hturn : w.turn alive = (.found a, w'))
    {turns : Nat} {items} {last : Walker} (hrest : w'.collect alive turns = some (items, last)) :
    w.collect alive (turns + 1) = some (.ok a :: items, last) := by
  refine collect_of_next_some ?_ hrest
  rw [next_eq_step, step, hturn]
  rfl

/-- `Walker.collect` before a turn that fails: the error is the last item. -/
private theorem collect_of_failed {w w' : Walker} {e : DebugInfo.Error}
    (hturn : w.turn alive = (.failed e, w'))
    (turns : Nat) :
    w.collect alive (turns + 1) =
      some ([.error e], { w' with pending := none, done := true }) := by
  have hover : IsOver { w' with pending := none, done := true } := ⟨rfl, rfl⟩
  refine collect_of_next_some ?_ (collect_of_next_none (hover.next_eq turns))
  rw [next_eq_step, step, hturn]

/-- `Walker.collect` before a turn that ends the walk. -/
private theorem collect_of_ended {w w' : Walker} (hturn : w.turn alive = (.ended, w')) (turns : Nat) :
    w.collect alive turns = some ([], w') := by
  apply collect_of_next_none
  rw [next_eq_step]
  unfold step
  rw [hturn]
  rfl

/-! ### The end of a walk -/

/-- A `Walker.step` that found nothing has come to the end of the walk. -/
private theorem isOver_of_step_none {turns : Nat} {w w' : Walker}
    (h : w.step alive turns = some (.ok none, w')) : w'.IsOver := by
  fun_induction step alive turns w with
  | case1 => cases h
  | case2 w _ _ turns ih => exact ih h
  | case3 | case4 => cases h
  | case5 turns w last hturn =>
    cases h
    exact isOver_of_ended hturn

/-- Once `Walker.next` gives nothing, nothing is left. -/
theorem isOver_of_next_none {turns : Nat} {w w' : Walker} (h : w.next alive turns = some (none, w')) :
    w'.IsOver := by
  rw [next_eq_step] at h
  split at h
  · cases h
  · rename_i found w'' hstep
    cases found with
    | none =>
      cases h
      exact isOver_of_step_none hstep
    | some a => cases h
  · cases h

/-- Once `Walker.collect` has come to an end, nothing is left. -/
theorem isOver_of_collect {turns : Nat} {w last : Walker} {items}
    (h : w.collect alive turns = some (items, last)) : last.IsOver := by
  induction items generalizing turns w with
  | nil => exact isOver_of_next_none (collect_cases h)
  | cons item rest ih =>
    obtain ⟨n, w', -, -, hrest⟩ := collect_cases h
    exact ih hrest

/-! ### Activations -/

/-- Activations as `Walker.next` gives them: those whose class is alive. -/
def found (alive : ClassId → Bool) (as : List Activation) : List (Except DebugInfo.Error Activation) :=
  (as.filter fun a => alive a.method.holder).map .ok

/-- `found` of one activation after the other. -/
private theorem found_append (as bs : List Activation) :
    found alive (as ++ bs) = found alive as ++ found alive bs := by
  simp [found]

/-- `Walker.collect` before a turn that visits an activation: it is given unless its class is gone. -/
private theorem collect_of_visit {w w' last : Walker} {a : Activation} {turns : Nat} {items}
    (hturn : w.turn alive = (.visit alive a, w'))
    (hrest : w'.collect alive turns = some (items, last)) :
    w.collect alive (turns + 1) = some (found alive [a] ++ items, last) := by
  by_cases halive : alive a.method.holder = true
  · have hfound : w.turn alive = (.found a, w') := by
      rw [hturn, Turn.visit, if_pos halive]
    rw [collect_of_found hfound hrest]
    simp [found, halive]
  · have honward : w.turn alive = (.onward, w') := by
      rw [hturn, Turn.visit, if_neg halive]
    rw [collect_of_onward honward hrest]
    simp [found, halive]

/-- `Walker.collect` gives the scopes of a chain one after the other, in one turn each, and then what
    was left before them. -/
private theorem collect_chain {code : CompiledCode} {offset : Nat} {scopes : List Scope}
    (hchain : code.Chain offset scopes) {remaining : List Frame} {done : Bool} {turns : Nat} {items}
    {last : Walker}
    (hrest : collect alive turns ⟨remaining, none, done⟩ = some (items, last)) :
    collect alive (turns + scopes.length) ⟨remaining, some (code, offset), done⟩ =
      some (found alive (scopes.map Scope.activation) ++ items, last) := by
  induction hchain with
  | @physical offset s read physical =>
    have hturn : turn alive ⟨remaining, some (code, offset), done⟩ =
        (.visit alive s.activation, ⟨remaining, none, done⟩) := by
      simp [turn, expand, read, physical]
    exact collect_of_visit hturn hrest
  | @inlined offset s outer read inlined _ ih =>
    have hturn : turn alive ⟨remaining, some (code, offset), done⟩ =
        (.visit alive s.activation, ⟨remaining, some (code, s.sender), done⟩) := by
      simp [turn, expand, read, inlined]
    rw [List.length_cons, ← Nat.add_assoc, collect_of_visit hturn ih, List.map_cons,
      ← List.append_assoc, ← found_append]
    rfl

end Walker

/-! ### The list form of a walk -/

/-- `Walk.extend` puts what was read before in front of the rest of the stack. -/
private theorem Walk.extend_eq (before : List Activation) (stack : List Frame) :
    extend before stack =
      ⟨before.reverse ++ (ofStack stack).activations, (ofStack stack).error⟩ := by
  unfold ofStack
  induction stack generalizing before with
  | nil => simp [extend]
  | cons f rest ih =>
    simp only [extend]
    split
    · simp
    · rw [ih, ih (f.activations.activations.reverse ++ [])]
      simp

/-- `Walk.ofStack` puts a frame that can be read before what the rest of the stack gives. -/
theorem Walk.ofStack_cons {f : Frame} {as : List Activation} (hf : f.activations = ⟨as, none⟩)
    (rest : List Frame) :
    ofStack (f :: rest) = ⟨as ++ (ofStack rest).activations, (ofStack rest).error⟩ := by
  have hextend : ofStack (f :: rest) = extend (as.reverse ++ []) rest := by
    simp [ofStack, extend, hf]
  rw [hextend, extend_eq]
  simp

/-- `Walk.ofStack` ends with a frame that cannot be read. -/
theorem Walk.ofStack_cons_error {f : Frame} {e : DebugInfo.Error} (hf : f.activations = ⟨[], some e⟩)
    (rest : List Frame) : ofStack (f :: rest) = ⟨[], some e⟩ := by
  simp [ofStack, extend, hf]

/-- Whether all scopes can be read that a frame leads to (`CompiledCode.Decodes`). -/
def Frame.Readable : Frame → Prop
  | .compiled code pc => code.nativeWrapper = false → ∀ desc, code.pcDescAt pc = some desc →
      ∃ scopes, code.Decodes desc.scopeOffset scopes
  | _ => True

/-- `CompiledCode.scopeAt` decodes a scope from within the bytes of the records only. -/
private theorem CompiledCode.lt_size_of_scopeAt {c : CompiledCode} {offset : Nat} {s : Scope}
    (h : c.scopeAt offset = .ok s) : offset < c.scopes.size := by
  unfold scopeAt at h
  split at h
  · cases h
  · omega

/-- No chain that `CompiledCode.Decodes` is longer than the bytes of the records, for its offsets
    decrease. -/
private theorem CompiledCode.Decodes.length_le {c : CompiledCode} {offset : Nat} {scopes : List Scope}
    (h : c.Decodes offset scopes) : scopes.length ≤ c.scopes.size := by
  -- Decreasing offsets are fewer than the first of them, and that one is within the records
  have hdec : ∀ (offset : Nat) (senders : List Nat), (offset :: senders).Pairwise (· > ·) →
      senders.length ≤ offset := by
    intro offset senders hsenders
    induction senders generalizing offset with
    | nil => exact Nat.zero_le _
    | cons sender outer ih =>
      obtain ⟨hall, hrest⟩ := List.pairwise_cons.mp hsenders
      have hlt : sender < offset := hall sender (by simp)
      have hlength := ih sender hrest
      rw [List.length_cons]
      omega
  have hlength := hdec offset _ h.senders_decrease
  rw [List.length_map] at hlength
  have hlt : offset < c.scopes.size := by
    cases h.chain with
    | physical read _ => exact lt_size_of_scopeAt read
    | inlined read _ _ => exact lt_size_of_scopeAt read
  omega

namespace Walker

variable {alive : ClassId → Bool}

/-- `Walker.collect` before a frame gives the activations of the frame, and then what it gives for the
    rest of the stack, or the error that makes the frame the last. -/
private theorem collect_frame {f : Frame} (hf : f.Readable) {rest : List Frame} {items} {last : Walker}
    (hrest : (ofStack rest).collect alive (turnsFor rest) = some (items, last)) :
    (∃ as, f.activations = ⟨as, none⟩ ∧
      (ofStack (f :: rest)).collect alive (turnsFor (f :: rest)) =
        some (found alive as ++ items, last)) ∨
    ∃ pc last', f.activations = ⟨[], some (.missingPcDesc pc)⟩ ∧
      (ofStack (f :: rest)).collect alive (turnsFor (f :: rest)) =
        some ([.error (.missingPcDesc pc)], last') := by
  -- Case by case over the frames; only compiled code takes more than one turn, one for each scope
  cases f with
  | entry =>
    left
    refine ⟨[], rfl, ?_⟩
    cases rest with
    | nil =>
      -- The bottom of the stack; without the entry the walk would end here as well
      rw [collect_of_ended rfl] at hrest ⊢
      exact hrest
    | cons g below => exact collect_of_onward rfl hrest
  | stub name =>
    left
    exact ⟨[], rfl, collect_of_onward rfl hrest⟩
  | interpreted method bci =>
    left
    exact ⟨_, rfl, collect_of_visit rfl hrest⟩
  | compiled code pc =>
    have hturns : turnsFor (.compiled code pc :: rest) = turnsFor rest + code.scopes.size + 1 := rfl
    rw [hturns]
    by_cases hwrapper : code.nativeWrapper = true
    · left
      have hturn : (ofStack (.compiled code pc :: rest)).turn alive =
          (.visit alive ⟨code.method, 0, .nativeEntry⟩, ofStack rest) := by
        simp [turn, ofStack, visit, hwrapper]
      have hmore := collect_mono (Nat.le_add_right _ code.scopes.size) hrest
      exact ⟨[⟨code.method, 0, .nativeEntry⟩], by simp [Frame.activations, hwrapper],
        collect_of_visit hturn hmore⟩
    · have hplain : code.nativeWrapper = false := by simpa using hwrapper
      cases hdesc : code.pcDescAt pc with
      | none =>
        right
        have hturn : (ofStack (.compiled code pc :: rest)).turn alive =
            (.failed (.missingPcDesc pc), ofStack rest) := by
          simp [turn, ofStack, visit, hplain, hdesc]
        exact ⟨pc, _, by simp [Frame.activations, hplain, hdesc], collect_of_failed hturn _⟩
      | some desc =>
        left
        obtain ⟨scopes, hdecodes⟩ := hf hplain desc hdesc
        have hturn : (ofStack (.compiled code pc :: rest)).turn alive =
            (.onward, ⟨rest, some (code, desc.scopeOffset), false⟩) := by
          simp [turn, ofStack, visit, hplain, hdesc]
        have hfrom := hdecodes.chain.scopesFrom_eq hdecodes.senders_decrease
        have hscopes := collect_chain hdecodes.chain hrest
        have hmore := collect_mono (Nat.add_le_add_left hdecodes.length_le _) hscopes
        exact ⟨scopes.map Scope.activation, by simp [Frame.activations, hplain, hdesc, hfrom],
          collect_of_onward hturn hmore⟩

/-- `Walker.collect` and the list form of a walk agree on stacks that can be read: the walker gives what
    is visited, and then the error that ends the walk, in no more turns than there are frames and bytes
    of scope records. -/
theorem collect_ofStack (alive : ClassId → Bool) {stack : List Frame}
    (hstack : ∀ f ∈ stack, f.Readable) :
    ∃ last, (ofStack stack).collect alive (turnsFor stack) =
      some (((Walk.ofStack stack).visited alive).map .ok ++
        (Walk.ofStack stack).error.toList.map .error, last) := by
  induction stack with
  | nil => exact ⟨_, collect_of_ended rfl _⟩
  | cons f rest ih =>
    obtain ⟨hf, hbelow⟩ := List.forall_mem_cons.mp hstack
    obtain ⟨last, hrest⟩ := ih hbelow
    rcases collect_frame hf hrest with ⟨as, has, hcollect⟩ | ⟨pc, last', herror, hcollect⟩
    · refine ⟨last, ?_⟩
      rw [hcollect, Walk.ofStack_cons has]
      simp [Walk.visited, found]
    · refine ⟨last', ?_⟩
      rw [hcollect, Walk.ofStack_cons_error herror]
      simp [Walk.visited]

end Walker

end StackTrace
