import Mathlib.Data.List.Perm.Basic
import StackTrace.Memory.Basic

/-!
# Verifiers in any order

A thread may have any number of verifiers alive at once.  Each can be paused for a while, also while
others that were opened later are in force, and they are dropped in any order.  The thread itself only
counts, and each verifier has a flag of its own; `GuardedThread.Sound` says that both stay in step with
what has been opened, paused and dropped.

A pause borrows its verifier, so a verifier that is paused is neither paused again nor dropped before
the pause has ended.

## Key results

- `GuardedThread.Sound.step`: every event keeps the count and the flags in step
- `GuardedThread.Sound.allocate_of_held`, `GuardedThread.Sound.allocate_of_not_held`: when an allocation
  breaks the promise
- `GuardedThread.depth_of_events`: the count, after any number of events
-/

namespace StackTrace

/-- A verifier that has not been dropped. -/
structure LiveVerifier where
  verifier : Verifier
  /-- Whether a pause of it has begun and not ended. -/
  paused : Bool
  deriving DecidableEq, Repr

/-- What happens to the verifiers of a thread.  A verifier is named by its place among those alive, of
    which the latest comes first. -/
inductive VerifierEvent where
  | enter
  | pause (i : Nat)
  | resume (i : Nat)
  | drop (i : Nat)

/-- A thread with its verifiers. -/
structure GuardedThread where
  memory : Memory
  alive : List LiveVerifier
  deriving DecidableEq, Repr

namespace GuardedThread

/-- The number of unpaused scopes that the thread counts in its `Safepoints`. -/
def depth (t : GuardedThread) : Nat := t.memory.safepoints.depth

/-- The number of verifiers alive that are not paused. -/
def unpaused (t : GuardedThread) : Nat := t.alive.countP fun v => !v.paused

/-- Opens a verifier by `Safepoints.openScope`. -/
def enter (t : GuardedThread) : GuardedThread :=
  let (v, safepoints) := t.memory.safepoints.openScope
  ⟨{ t.memory with safepoints }, ⟨v, false⟩ :: t.alive⟩

/-- Pauses the verifier at place `i`. -/
def pauseAt (t : GuardedThread) (i : Nat) (v : Verifier) : GuardedThread :=
  let (v, safepoints) := t.memory.safepoints.pause v
  ⟨{ t.memory with safepoints }, t.alive.set i ⟨v, true⟩⟩

/-- Ends the pause of the verifier at place `i`. -/
def resumeAt (t : GuardedThread) (i : Nat) (v : Verifier) : GuardedThread :=
  let (v, safepoints) := t.memory.safepoints.resume v
  ⟨{ t.memory with safepoints }, t.alive.set i ⟨v, false⟩⟩

/-- Drops the verifier at place `i`. -/
def dropAt (t : GuardedThread) (i : Nat) (v : Verifier) : GuardedThread :=
  ⟨{ t.memory with safepoints := t.memory.safepoints.close v }, t.alive.eraseIdx i⟩

/-- What `f` makes of the verifier at place `i`, if there is one and it is paused or not as said. -/
def withVerifier (t : GuardedThread) (i : Nat) (paused : Bool) (f : Verifier → GuardedThread) :
    Option GuardedThread :=
  t.alive[i]?.bind fun v => if v.paused = paused then some (f v.verifier) else none

/-- Carries out an event, if there is such a verifier and it is as the event needs it. -/
def step (t : GuardedThread) : VerifierEvent → Option GuardedThread
  | .enter => some t.enter
  | .pause i => t.withVerifier i false (t.pauseAt i)
  | .resume i => t.withVerifier i true (t.resumeAt i)
  | .drop i => t.withVerifier i false (t.dropAt i)

/-- Carries out events in order by `GuardedThread.step`. -/
def run (t : GuardedThread) : List VerifierEvent → Option GuardedThread
  | [] => some t
  | e :: events => (t.step e).bind (·.run events)

/-- The thread keeps count of verifiers that it had before, in `start`, and of those alive. -/
structure Sound (start : Memory) (t : GuardedThread) : Prop where
  heap_eq : t.memory.heap = start.heap
  depth_eq : t.depth = start.safepoints.depth + t.unpaused
  active_eq : ∀ v ∈ t.alive, v.verifier.active = !v.paused

variable {start : Memory} {t t' : GuardedThread} {e : VerifierEvent} {i : Nat} {v : Verifier}

/-- `Sound` at the start, with no verifier alive. -/
private theorem sound_start (start : Memory) : Sound start ⟨start, []⟩ := ⟨rfl, rfl, nofun⟩

/-! ## Single events -/

section Counting

variable {α : Type} {l : List α} {a : α} (p : α → Bool)

/-- `List.countP` with one element set apart. -/
private theorem countP_of_getElem? (hi : l[i]? = some a) :
    l.countP p = (if p a = true then 1 else 0) + (l.eraseIdx i).countP p := by
  obtain ⟨hlt, rfl⟩ := List.getElem?_eq_some_iff.mp hi
  rw [← (List.getElem_cons_eraseIdx_perm hlt).countP_eq p, List.countP_cons, Nat.add_comm]

/-- `List.countP` after one element was changed, with that one set apart. -/
private theorem countP_set_of_getElem? (hi : l[i]? = some a) (b : α) :
    (l.set i b).countP p = (if p b = true then 1 else 0) + (l.eraseIdx i).countP p := by
  obtain ⟨hlt, -⟩ := List.getElem?_eq_some_iff.mp hi
  rw [(List.set_perm_cons_eraseIdx hlt b).countP_eq p, List.countP_cons, Nat.add_comm]

end Counting

/-- `Sound` counts a verifier in force, so what is taken off the count is there. -/
private theorem Sound.depth_pos (h : t.Sound start) (hi : t.alive[i]? = some ⟨v, false⟩) : 0 < t.depth := by
  have hcount := countP_of_getElem? (fun v : LiveVerifier => !v.paused) hi
  rw [h.depth_eq, unpaused, hcount]
  simp only [Bool.not_false, if_true]
  omega

/-- `Sound` ties the flag of a verifier to whether it is paused. -/
private theorem Sound.active (h : t.Sound start) (hi : t.alive[i]? = some ⟨v, false⟩) : v.active = true :=
  h.active_eq _ (List.mem_of_getElem? hi)

/-- `GuardedThread.enter` counts the verifier that it opens. -/
private theorem Sound.enter (h : t.Sound start) : t.enter.Sound start where
  heap_eq := h.heap_eq
  depth_eq := by
    have hdepth := h.depth_eq
    simp only [GuardedThread.enter, depth, unpaused, Safepoints.openScope, List.countP_cons] at hdepth ⊢
    simp only [Bool.not_false, if_true]
    omega
  active_eq := List.forall_mem_cons.mpr ⟨rfl, h.active_eq⟩

/-- `GuardedThread.pauseAt` takes the verifier off the count, wherever it stands among the others. -/
private theorem Sound.pauseAt (h : t.Sound start) (hi : t.alive[i]? = some ⟨v, false⟩) :
    (t.pauseAt i v).Sound start where
  heap_eq := h.heap_eq
  depth_eq := by
    have hdepth := h.depth_eq
    have hbefore := countP_of_getElem? (fun v : LiveVerifier => !v.paused) hi
    have hafter := countP_set_of_getElem? (fun v : LiveVerifier => !v.paused) hi
    simp only [GuardedThread.pauseAt, depth, unpaused, Safepoints.pause, hbefore, hafter] at hdepth ⊢
    simp only [Bool.not_false, Bool.not_true, if_true, Bool.false_eq_true, if_false] at hdepth ⊢
    omega
  active_eq := by
    intro w hw
    rcases List.mem_or_eq_of_mem_set hw with hw | rfl
    · exact h.active_eq w hw
    · rfl

/-- `GuardedThread.resumeAt` puts it back on the count. -/
private theorem Sound.resumeAt (h : t.Sound start) (hi : t.alive[i]? = some ⟨v, true⟩) :
    (t.resumeAt i v).Sound start where
  heap_eq := h.heap_eq
  depth_eq := by
    have hdepth := h.depth_eq
    have hbefore := countP_of_getElem? (fun v : LiveVerifier => !v.paused) hi
    have hafter := countP_set_of_getElem? (fun v : LiveVerifier => !v.paused) hi
    simp only [GuardedThread.resumeAt, depth, unpaused, Safepoints.resume, hbefore, hafter] at hdepth ⊢
    simp only [Bool.not_false, Bool.not_true, if_true, Bool.false_eq_true, if_false] at hdepth ⊢
    omega
  active_eq := by
    intro w hw
    rcases List.mem_or_eq_of_mem_set hw with hw | rfl
    · exact h.active_eq w hw
    · rfl

/-- `GuardedThread.dropAt` takes a verifier off the count, since its flag says that it is on it. -/
private theorem Sound.dropAt (h : t.Sound start) (hi : t.alive[i]? = some ⟨v, false⟩) :
    (t.dropAt i v).Sound start where
  heap_eq := h.heap_eq
  depth_eq := by
    have hdepth := h.depth_eq
    have hbefore := countP_of_getElem? (fun v : LiveVerifier => !v.paused) hi
    simp only [GuardedThread.dropAt, depth, unpaused, Safepoints.close, h.active hi, if_true, hbefore] at hdepth ⊢
    simp only [Bool.not_false, if_true] at hdepth
    omega
  active_eq := fun w hw => h.active_eq w (List.mem_of_mem_eraseIdx hw)

/-- `GuardedThread.withVerifier` goes on only with a verifier that is alive and stands as it should. -/
private theorem exists_of_withVerifier {paused : Bool} {f : Verifier → GuardedThread}
    (h : t.withVerifier i paused f = some t') :
    ∃ v, t.alive[i]? = some ⟨v, paused⟩ ∧ f v = t' := by
  obtain ⟨⟨v, p⟩, hi, hf⟩ := Option.bind_eq_some_iff.mp h
  dsimp only at hf
  split at hf
  · rename_i hpaused
    exact ⟨v, hpaused ▸ hi, Option.some.inj hf⟩
  · exact nomatch hf

/-- `GuardedThread.step` keeps the count and the flags in step. -/
theorem Sound.step (h : t.Sound start) (hstep : t.step e = some t') : t'.Sound start := by
  cases e with
  | enter =>
    cases hstep
    exact h.enter
  | pause i =>
    obtain ⟨v, hi, rfl⟩ := exists_of_withVerifier (f := t.pauseAt i) hstep
    exact h.pauseAt hi
  | resume i =>
    obtain ⟨v, hi, rfl⟩ := exists_of_withVerifier (f := t.resumeAt i) hstep
    exact h.resumeAt hi
  | drop i =>
    obtain ⟨v, hi, rfl⟩ := exists_of_withVerifier (f := t.dropAt i) hstep
    exact h.dropAt hi

/-- `GuardedThread.step` lowers the count by one, if it lowers it. -/
private theorem Sound.depth_lowered (h : t.Sound start)
    (hstep : t.step (.pause i) = some t' ∨ t.step (.drop i) = some t') : t'.depth + 1 = t.depth := by
  rcases hstep with hstep | hstep
  · obtain ⟨v, hi, rfl⟩ := exists_of_withVerifier (f := t.pauseAt i) hstep
    exact Nat.sub_add_cancel (h.depth_pos hi)
  · obtain ⟨v, hi, rfl⟩ := exists_of_withVerifier (f := t.dropAt i) hstep
    simp only [GuardedThread.dropAt, depth, Safepoints.close, h.active hi, if_true]
    exact Nat.sub_add_cancel (h.depth_pos hi)

/-! ## Any number of events -/

/-- `GuardedThread.run` begins with the step of its first event. -/
private theorem run_cons {events : List VerifierEvent} {t₁ : GuardedThread} (h : t.step e = some t₁) :
    t.run (e :: events) = t₁.run events := by
  rw [run, h, Option.bind_some]

/-- `GuardedThread.run` keeps the count and the flags in step. -/
theorem sound_run {events : List VerifierEvent} (h : t.Sound start) (hrun : t.run events = some t') :
    t'.Sound start := by
  induction events generalizing t with
  | nil =>
    cases hrun
    exact h
  | cons e events ih =>
    obtain ⟨t₁, hstep, hrest⟩ := Option.bind_eq_some_iff.mp hrun
    exact ih (h.step hstep) hrest

/-- `GuardedThread.run` can bring whatever is alive to its end: a pause is ended first. -/
private theorem exists_run_dropped (t : GuardedThread) :
    ∃ events t', t.run events = some t' ∧ t'.alive = [] := by
  obtain ⟨memory, alive⟩ := t
  -- Induction on the verifiers alive; the first of them is dropped, and so the next one is the first
  induction alive generalizing memory with
  | nil => exact ⟨[], _, rfl, rfl⟩
  | cons v rest ih =>
    obtain ⟨verifier, paused⟩ := v
    cases paused with
    | false =>
      obtain ⟨events, t', hrun, hnone⟩ :=
        ih { memory with safepoints := memory.safepoints.close verifier }
      refine ⟨.drop 0 :: events, t', ?_, hnone⟩
      rw [run_cons rfl]
      exact hrun
    | true =>
      obtain ⟨events, t', hrun, hnone⟩ :=
        ih { memory with
          safepoints := (memory.safepoints.resume verifier).2.close (memory.safepoints.resume verifier).1 }
      refine ⟨.resume 0 :: .drop 0 :: events, t', ?_, hnone⟩
      rw [run_cons rfl, run_cons rfl]
      exact hrun

/-- Some verifier is in force: one of those counted in `start`, or one that is alive and not paused. -/
def Held (start : Memory) (t : GuardedThread) : Prop :=
  0 < start.safepoints.depth ∨ ∃ v ∈ t.alive, v.paused = false

/-- `Held` says that the count is above zero. -/
private theorem Sound.held_iff (h : t.Sound start) : t.Held start ↔ 0 < t.depth := by
  have hcount : 0 < t.unpaused ↔ ∃ v ∈ t.alive, v.paused = false := by
    rw [unpaused, List.countP_pos_iff]
    simp only [Bool.not_eq_true']
  rw [Held, ← hcount, h.depth_eq]
  omega

/-- `Memory.allocate` breaks the promise while a verifier is in force, and nothing is charged. -/
theorem Sound.allocate_of_held (h : t.Sound start) (hheld : t.Held start) (payload : Nat) :
    t.memory.allocate payload = (.error (.violation .safepointInScope), t.memory) := by
  have hdepth : 0 < t.memory.safepoints.depth := Nat.zero_lt_of_lt (h.held_iff.mp hheld)
  have hallowed : t.memory.safepoints.allowed = false :=
    (Safepoints.allowed_eq_false_iff _).mpr hdepth
  simp only [Memory.allocate, hallowed, Bool.false_eq_true, if_false]

/-- `Memory.allocate` otherwise comes to what the heap makes of it. -/
theorem Sound.allocate_of_not_held (h : t.Sound start) (hfree : ¬t.Held start) (payload : Nat) :
    t.memory.allocate payload =
      ((start.heap.allocate payload).1.mapError .error,
        { t.memory with heap := (start.heap.allocate payload).2 }) := by
  have hdepth : t.memory.safepoints.depth = 0 := by
    have hle := mt h.held_iff.mpr hfree
    rw [depth] at hle
    omega
  -- With no verifier in force the count is zero, so the heap is asked
  have hallowed : t.memory.safepoints.allowed = true :=
    (Safepoints.allowed_iff t.memory.safepoints).mpr hdepth
  rw [Memory.allocate, if_pos hallowed, h.heap_eq]
  split
  · rename_i hallocate
    rw [hallocate]
    rfl
  · rename_i hallocate
    rw [hallocate]
    rfl

/-- `GuardedThread.depth` is right after any events that can happen to the verifiers of a thread, in any
    order.  The thread counts those that are alive and not paused, beside those that it had before, and
    the flag of each says whether it is paused.  What lowers the count lowers it by one, never below
    zero.  All that is alive can be brought to its end, and once nothing is alive the count is what it
    was at the start.  `Memory.allocate` breaks the promise exactly if some verifier is in force
    (`Held`); then nothing is charged, and otherwise the heap decides. -/
theorem depth_of_events (start : Memory) (events : List VerifierEvent) (t : GuardedThread)
    (hrun : GuardedThread.run ⟨start, []⟩ events = some t) :
    t.depth = start.safepoints.depth + t.unpaused ∧
    (∀ v ∈ t.alive, v.verifier.active = !v.paused) ∧
    (∀ i t', t.step (.pause i) = some t' ∨ t.step (.drop i) = some t' → t'.depth + 1 = t.depth) ∧
    (∃ later t', t.run later = some t' ∧ t'.alive = []) ∧
    (t.alive = [] → t.memory = start) ∧
    ∀ payload,
      ((∃ v, (t.memory.allocate payload).1 = .error (.violation v)) ↔ t.Held start) ∧
      (t.Held start → t.memory.allocate payload = (.error (.violation .safepointInScope), t.memory)) ∧
      (¬t.Held start → t.memory.allocate payload =
        ((start.heap.allocate payload).1.mapError .error,
          { t.memory with heap := (start.heap.allocate payload).2 })) := by
  have h : t.Sound start := sound_run (sound_start start) hrun
  refine ⟨h.depth_eq, h.active_eq, fun i t' => h.depth_lowered, t.exists_run_dropped,
    fun hnone => ?_, fun payload => ⟨?_, fun hheld => h.allocate_of_held hheld payload,
      fun hfree => h.allocate_of_not_held hfree payload⟩⟩
  · have hdepth := h.depth_eq
    have hheap := h.heap_eq
    rw [unpaused, hnone, List.countP_nil, Nat.add_zero] at hdepth
    obtain ⟨⟨heap, ⟨depth⟩⟩, alive⟩ := t
    obtain ⟨heap', ⟨depth'⟩⟩ := start
    cases hheap
    cases hdepth
    rfl
  · constructor
    · rintro ⟨v, hv⟩
      by_contra hfree
      -- The heap refuses for its limit, and never with a violation
      rw [h.allocate_of_not_held hfree payload] at hv
      cases hallocate : (start.heap.allocate payload).1 with
      | error e =>
        rw [hallocate] at hv
        exact nomatch hv
      | ok r =>
        rw [hallocate] at hv
        exact nomatch hv
    · intro hheld
      exact ⟨_, congrArg Prod.fst (h.allocate_of_held hheld payload)⟩

/-- `depth_of_events` for verifiers that cross.  The first of three is paused while the second is in
    force, the third is opened during that pause, and the second is dropped before either ends.  So the
    third is in force alone; once it is paused as well, an allocation is granted. -/
theorem depth_of_events_crossing :
    let start := Memory.ofLimit (some 64)
    let events : List VerifierEvent := [.enter, .enter, .pause 1, .enter, .drop 1]
    let t : GuardedThread := ⟨⟨start.heap, ⟨1⟩⟩, [⟨⟨true⟩, false⟩, ⟨⟨false⟩, true⟩]⟩
    let t' : GuardedThread := ⟨start, [⟨⟨false⟩, true⟩, ⟨⟨false⟩, true⟩]⟩
    GuardedThread.run ⟨start, []⟩ events = some t ∧ t.depth = 1 ∧
      t.memory.allocate 8 = (.error (.violation .safepointInScope), t.memory) ∧
    GuardedThread.run ⟨start, []⟩ (events ++ [.pause 0]) = some t' ∧ t'.depth = 0 ∧
      t'.memory.allocate 8 = (.ok ⟨24⟩, ⟨⟨some 64, 24, 1⟩, ⟨0⟩⟩) := by
  intro start events t t'
  -- The events happen on both ways, and the theorem tells the rest
  have hrun : GuardedThread.run ⟨start, []⟩ events = some t := by decide
  have hrun' : GuardedThread.run ⟨start, []⟩ (events ++ [.pause 0]) = some t' := by decide
  obtain ⟨hdepth, -, -, -, -, hallocate⟩ := depth_of_events start events t hrun
  obtain ⟨hdepth', -, -, -, -, hallocate'⟩ := depth_of_events start _ t' hrun'
  have hheld : t.Held start := .inr ⟨⟨⟨true⟩, false⟩, List.mem_cons_self, rfl⟩
  have hfree : ¬t'.Held start := by
    unfold Held
    decide
  obtain ⟨-, hrefused, -⟩ := hallocate 8
  obtain ⟨-, -, hgranted⟩ := hallocate' 8
  exact ⟨hrun, hdepth, hrefused hheld, hrun', hdepth', hgranted hfree⟩

end GuardedThread

end StackTrace
