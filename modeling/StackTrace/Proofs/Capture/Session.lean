import StackTrace.Proofs.Capture.Depth
import StackTrace.Proofs.Capture.Fill

/-!
# Sequences of calls

A `Session` is any number of runtimes and the throwables that were raised or handed out so far.  The
calls may be made in any order and on any threads, and may succeed or fail; between them the memory
and the program of a runtime may change in any way.

## Key results

- `Session.sound_step`, `Session.sound_run`: depths stay consistent in every call, and so in any
  sequence of calls
- `Session.depth_of_run`: what can be relied on for every throwable of a session
-/

namespace StackTrace

namespace Throwable

/-- `fillBuffer` fills a buffer with room for all frames completely, whatever was in it. -/
private theorem fillBuffer_of_length_eq (p : Program) {frames : List StoredFrame}
    {buffer : List StackTraceElement} (hlength : buffer.length = frames.length) :
    fillBuffer p frames buffer = frames.map (StackTraceElement.ofFrame p) := by
  induction frames generalizing buffer with
  | nil =>
    rw [List.eq_nil_of_length_eq_zero hlength]
    rfl
  | cons f frames ih =>
    cases buffer with
    | nil => exact nomatch hlength
    | cons e buffer =>
      rw [fillBuffer, ih (Nat.succ.inj hlength), List.map_cons]

/-- `Throwable.fillElements` fills a buffer exactly if there is a trace and the buffer has its depth.
    Then the buffer shows the trace; otherwise it is left as it was. -/
private theorem fillElements_of_consistent {t : Throwable} (ht : t.head.Consistent) (p : Program)
    (buffer : List StackTraceElement) :
    ((t.fillElements p buffer).1 = .ok () ↔
      t.head.trace.isSome = true ∧ buffer.length = t.head.depth) ∧
    ((t.fillElements p buffer).1 = .ok () → (t.fillElements p buffer).2 = t.elements p) ∧
    (∀ e, (t.fillElements p buffer).1 = .error e → (t.fillElements p buffer).2 = buffer) := by
  have hdepth := ht.depth_eq
  -- The cases of `fillElements`: no trace, a buffer of another length, and one of the depth
  cases htrace : t.head.trace with
  | none =>
    -- Without a trace the buffer is handed back at once
    have hfill : t.fillElements p buffer = (.error .missingBacktrace, buffer) := by
      simp only [fillElements, htrace]
    rw [hfill]
    refine ⟨⟨fun h => ?_, fun h => absurd h.1 Bool.false_ne_true⟩, fun h => ?_, fun _ _ => rfl⟩
    · cases h
    · cases h
  | some s =>
    -- By consistency the depth is the number of frames that are replayed
    rw [htrace, Option.map_some, Option.getD_some, Store.frameCount] at hdepth
    by_cases hlength : buffer.length = t.head.depth
    · -- The trace has as many frames as the buffer has room for, so it does not end early
      have hfill : t.fillElements p buffer = (.ok (), t.elements p) := by
        have hroom : ¬s.frames.length < buffer.length := by omega
        simp only [fillElements, htrace, hlength, ne_eq, not_true_eq_false, if_false]
        rw [fillBuffer_of_length_eq p (hlength.trans hdepth), ← hlength, if_neg hroom]
        simp only [elements, Condition.elements, Condition.frames, htrace, Option.map_some,
          Option.getD_some]
      rw [hfill]
      refine ⟨⟨fun _ => ⟨rfl, hlength⟩, fun _ => rfl⟩, fun _ => rfl, fun e he => ?_⟩
      cases he
    · -- The length is looked at before anything is written
      have hfill : t.fillElements p buffer =
          (.error (.depthMismatch t.head.depth buffer.length), buffer) := by
        simp only [fillElements, htrace, ne_eq, hlength, not_false_eq_true, if_true]
      rw [hfill]
      refine ⟨⟨fun h => ?_, fun h => absurd h.2 hlength⟩, fun h => ?_, fun _ _ => rfl⟩
      · cases h
      · cases h

end Throwable

/-- Runtimes, and the throwables that were raised or handed out. -/
structure Session where
  runtimes : List Universe
  held : List Throwable

/-- A call, with the places of the runtime and the throwable it is about. -/
inductive Call where
  /-- Starts a runtime. -/
  | boot (config : RuntimeConfig)
  /-- Raises a throwable. -/
  | raise (cls : ClassId) (message : Option String)
  | fill (runtime throwable : Nat) (others : List ClassId) (thread : ManagedThread)
      (method : Option Method)
  | refill (runtime throwable : Nat) (others : List ClassId) (thread : ManagedThread)
  | allocate (runtime throwable : Nat)
  /-- Asks a runtime for an out-of-memory error. -/
  | outOfMemory (runtime : Nat) (others : List ClassId) (thread : ManagedThread)
      (message : Option String)
  /-- Whatever else goes on in a runtime. -/
  | elapse (runtime : Nat) (memory : Memory) (program : Program)

namespace Session

/-- No runtime has been booted, and no throwable is held. -/
def empty : Session := ⟨[], []⟩

/-- The throwables of a session, handed out or prepared (`Universe.pool`). -/
def throwables (s : Session) : List Throwable := s.held ++ s.runtimes.flatMap (·.pool)

/-- Does something with the throwable `throwable` in the runtime `runtime`. -/
def act (s : Session) (runtime throwable : Nat)
    (action : Universe → Throwable → Throwable × Universe) : Session :=
  match s.runtimes[runtime]?, s.held[throwable]? with
  | some u, some t =>
    let (t, u) := action u t
    ⟨s.runtimes.set runtime u, s.held.set throwable t⟩
  | _, _ => s

/-- The session after one `Call`, whether that succeeds or not. -/
def step (s : Session) : Call → Session
  | .boot config =>
    match Universe.genesis config with
    | .error _ => s
    | .ok u => ⟨s.runtimes ++ [u], s.held⟩
  | .raise cls message => ⟨s.runtimes, s.held ++ [Throwable.new cls message]⟩
  | .fill runtime throwable others thread method =>
    s.act runtime throwable fun u t => (u.fillInStackTrace others t thread method).2
  | .refill runtime throwable others thread =>
    s.act runtime throwable fun u t => (u.refillStackTrace others t thread).2
  | .allocate runtime throwable => s.act runtime throwable fun u t => (u.allocateTrace t).2
  | .outOfMemory runtime others thread message =>
    match s.runtimes[runtime]? with
    | none => s
    | some u =>
      let (t, u) := u.outOfMemoryError others thread message
      ⟨s.runtimes.set runtime u, s.held ++ [t]⟩
  | .elapse runtime memory program =>
    match s.runtimes[runtime]? with
    | none => s
    | some u => ⟨s.runtimes.set runtime { u with memory, program }, s.held⟩

/-- What `Session.step` makes of the empty session, call by call. -/
def run (calls : List Call) : Session := calls.foldl step empty

/-- `Condition.Consistent` holds of every throwable. -/
structure Sound (s : Session) : Prop where
  held : ∀ t ∈ s.held, t.head.Consistent
  pools : ∀ u ∈ s.runtimes, u.PoolConsistent

variable {s : Session}

/-- `Session.Sound` reaches every throwable of the session, held or prepared. -/
theorem Sound.consistent (hs : s.Sound) {t : Throwable} (ht : t ∈ s.throwables) :
    t.head.Consistent := by
  rcases List.mem_append.mp ht with ht | ht
  · exact hs.held t ht
  · obtain ⟨u, hu, ht⟩ := List.mem_flatMap.mp ht
    exact hs.pools u hu t ht

/-- A runtime may be replaced by one with `Universe.PoolConsistent`. -/
private theorem Sound.set_runtime (hs : s.Sound) (runtime : Nat) {u : Universe} (hu : u.PoolConsistent) :
    ∀ u' ∈ s.runtimes.set runtime u, u'.PoolConsistent := by
  intro u' hu'
  rcases List.mem_or_eq_of_mem_set hu' with hu' | rfl
  · exact hs.pools u' hu'
  · exact hu

/-- `Session.act` keeps a session sound if the action keeps a depth consistent and the prepared errors
    as they are. -/
private theorem Sound.act (hs : s.Sound) (runtime throwable : Nat)
    {action : Universe → Throwable → Throwable × Universe}
    (haction : ∀ u t, t.head.Consistent →
      (action u t).1.head.Consistent ∧ (action u t).2.pool = u.pool) :
    (s.act runtime throwable action).Sound := by
  unfold Session.act
  split
  · rename_i u t hruntime hheld
    have ht := hs.held t (List.mem_of_getElem? hheld)
    have hu := hs.pools u (List.mem_of_getElem? hruntime)
    obtain ⟨hconsistent, hpool⟩ := haction u t ht
    have hu' : (action u t).2.PoolConsistent := fun t' ht' => hu t' (hpool ▸ ht')
    refine ⟨fun t' ht' => ?_, hs.set_runtime runtime hu'⟩
    rcases List.mem_or_eq_of_mem_set ht' with ht' | rfl
    · exact hs.held t' ht'
    · exact hconsistent
  · exact hs

/-- `Session.Sound` lets a further throwable be held if its depth is consistent. -/
private theorem Sound.held_append (hs : s.Sound) {t : Throwable} (ht : t.head.Consistent) :
    ∀ t' ∈ s.held ++ [t], t'.head.Consistent := by
  intro t' ht'
  rcases List.mem_append.mp ht' with ht' | ht'
  · exact hs.held t' ht'
  · exact List.mem_singleton.mp ht' ▸ ht

/-- `Session.step` keeps `Session.Sound`: each call leaves every depth consistent. -/
theorem sound_step (hs : s.Sound) (call : Call) : (s.step call).Sound := by
  cases call with
  | boot config =>
    -- A runtime that does not start leaves the session as it is
    simp only [step]
    split
    · exact hs
    · rename_i u hgenesis
      refine ⟨hs.held, fun u' hu' => ?_⟩
      rcases List.mem_append.mp hu' with hu' | hu'
      · exact hs.pools u' hu'
      · exact List.mem_singleton.mp hu' ▸ Universe.poolConsistent_genesis hgenesis
  | raise cls message =>
    exact ⟨hs.held_append (Throwable.consistent_of_no_trace rfl rfl), hs.pools⟩
  | fill runtime throwable others thread method =>
    -- A failed capture leaves no trace and the depth 0, so it is consistent, too
    refine hs.act runtime throwable fun u t ht => ?_
    obtain ⟨hconsistent, -, hpool⟩ :=
      Universe.consistent_fillInStackTrace ht others thread method rfl
    exact ⟨hconsistent, hpool⟩
  | refill runtime throwable others thread =>
    exact hs.act runtime throwable fun u t ht =>
      Universe.consistent_refillStackTrace ht others thread rfl
  | allocate runtime throwable =>
    exact hs.act runtime throwable fun u t ht => Universe.consistent_allocateTrace ht rfl
  | outOfMemory runtime others thread message =>
    simp only [step]
    split
    · exact hs
    · rename_i u hruntime
      -- The error is handed out, and the runtime goes on without it
      obtain ⟨hconsistent, hu⟩ := Universe.consistent_outOfMemoryError
        (hs.pools u (List.mem_of_getElem? hruntime)) others thread message rfl
      exact ⟨hs.held_append hconsistent, hs.set_runtime runtime hu⟩
  | elapse runtime memory program =>
    simp only [step]
    split
    · exact hs
    · rename_i u hruntime
      exact ⟨hs.held, hs.set_runtime runtime (hs.pools u (List.mem_of_getElem? hruntime))⟩

/-- `Session.Sound` is kept by every sequence of calls. -/
theorem sound_foldl (hs : s.Sound) (calls : List Call) : (calls.foldl step s).Sound := by
  induction calls generalizing s with
  | nil => exact hs
  | cons call calls ih => exact ih (sound_step hs call)

/-- `Session.run` is sound: whatever calls are made, every throwable is in good order. -/
theorem sound_run (calls : List Call) : (run calls).Sound :=
  sound_foldl ⟨fun _ h => (List.not_mem_nil h).elim, fun _ h => (List.not_mem_nil h).elim⟩ calls

/-- `Condition.depth` is the number of frames of the trace for every throwable that comes about,
    and 0 without one; a `Universe.fillInStackTrace` that ends well reports it, whatever the
    runtime.  So `Throwable.fillElements` fills a buffer exactly if there is a trace and the
    buffer has the depth as its length: then it shows the trace, whatever was in it, and otherwise
    no element of it is changed. -/
theorem depth_of_run (calls : List Call) {t : Throwable} (ht : t ∈ (run calls).throwables) :
    t.head.depth = (t.head.trace.map Store.frameCount).getD 0 ∧
    (∀ (u : Universe) others thread method n,
      (u.fillInStackTrace others t thread method).1 = .ok n →
        n = (u.fillInStackTrace others t thread method).2.1.head.depth) ∧
    (∀ p buffer, (t.fillElements p buffer).1 = .ok () ↔
      t.head.trace.isSome = true ∧ buffer.length = t.head.depth) ∧
    (∀ p buffer, (t.fillElements p buffer).1 = .ok () →
      (t.fillElements p buffer).2 = t.elements p) ∧
    (∀ p buffer e, (t.fillElements p buffer).1 = .error e →
      (t.fillElements p buffer).2 = buffer) := by
  have hconsistent := (sound_run calls).consistent ht
  refine ⟨hconsistent.depth_eq, fun u others thread method n hn => ?_, fun p buffer => ?_,
    fun p buffer => ?_, fun p buffer => ?_⟩
  · exact (Universe.consistent_fillInStackTrace hconsistent others thread method rfl).2.1 n hn
  · exact (Throwable.fillElements_of_consistent hconsistent p buffer).1
  · exact (Throwable.fillElements_of_consistent hconsistent p buffer).2.1
  · exact (Throwable.fillElements_of_consistent hconsistent p buffer).2.2

/-- An out-of-memory error is handed out on a thread whose outermost frame cannot be stored, a throwable
    is captured for, and the capture for another one is refused.  What goes on in between leaves room
    for one chunk. -/
def shortOfMemory : List Call :=
  let run : Method := ⟨⟨0⟩, 0, 2, 2, ⟨"run", 5⟩, ⟨"()V", 3⟩, {}, 9, []⟩
  [.boot { backtrace := { chunkSize := 8, preallocatedErrors := 1 } },
    .elapse 0 (Memory.ofLimit (some 300)) Universe.single.program,
    .outOfMemory 0 [] Universe.raising none,
    .raise ⟨0⟩ none, .fill 0 1 [] (.named "worker") (some run),
    .raise ⟨0⟩ none, .fill 0 2 [] (.named "worker") (some run)]

/-- `depth_of_run` for `shortOfMemory`.  The error has three frames, the walk that failed behind them
    notwithstanding.  The throwable of the capture has one, and the refused one has no trace to show. -/
theorem depth_of_run_raise : ∃ exhausted captured refused : Throwable,
    (run shortOfMemory).held = [exhausted, captured, refused] ∧
    exhausted.head.depth = 3 ∧ captured.head.depth = 1 ∧ refused.head.depth = 0 ∧
    (∀ p buffer, (exhausted.fillElements p buffer).1 = .ok () ↔ buffer.length = 3) ∧
    (∀ p buffer, (captured.fillElements p buffer).1 = .ok () ↔ buffer.length = 1) ∧
    ∀ p buffer, (refused.fillElements p buffer).1 ≠ .ok () := by
  -- The run is evaluated once, for the numbers of frames only
  have hcounts : (run shortOfMemory).held.map (·.head.trace.map Store.frameCount) =
      [some 3, some 1, none] := by decide +kernel
  obtain ⟨exhausted, rest₁, hheld₁, hexhausted, hrest₁⟩ := List.map_eq_cons_iff.mp hcounts
  obtain ⟨captured, rest₂, hheld₂, hcaptured, hrest₂⟩ := List.map_eq_cons_iff.mp hrest₁
  obtain ⟨refused, rest₃, hheld₃, hrefused, hrest₃⟩ := List.map_eq_cons_iff.mp hrest₂
  obtain rfl := List.map_eq_nil_iff.mp hrest₃
  subst hheld₂ hheld₃
  have hmem : ∀ t ∈ [exhausted, captured, refused], t ∈ (run shortOfMemory).throwables :=
    fun t ht => List.mem_append_left _ (hheld₁ ▸ ht)
  -- A trace that is there decides what a buffer has to be like
  have hfilled : ∀ t ∈ [exhausted, captured, refused], ∀ n,
      t.head.trace.map Store.frameCount = some n → t.head.depth = n ∧
        ∀ p buffer, (t.fillElements p buffer).1 = .ok () ↔ buffer.length = n := by
    intro t ht n hn
    obtain ⟨hdepth, -, hfill, -⟩ := depth_of_run shortOfMemory (hmem t ht)
    rw [hn] at hdepth
    have htrace : t.head.trace.isSome = true := by
      obtain ⟨s, hs, -⟩ := Option.map_eq_some_iff.mp hn
      rw [hs]
      rfl
    refine ⟨hdepth, fun p buffer => ?_⟩
    rw [hfill, hdepth]
    exact and_iff_right htrace
  obtain ⟨hdepth₁, hfill₁⟩ := hfilled exhausted (by simp) 3 hexhausted
  obtain ⟨hdepth₂, hfill₂⟩ := hfilled captured (by simp) 1 hcaptured
  obtain ⟨hdepth₃, -, hfill₃, -⟩ := depth_of_run shortOfMemory (hmem refused (by simp))
  rw [hrefused] at hdepth₃
  refine ⟨exhausted, captured, refused, hheld₁, hdepth₁, hdepth₂, hdepth₃, hfill₁, hfill₂,
    fun p buffer hok => ?_⟩
  obtain ⟨htrace, -⟩ := (hfill₃ p buffer).mp hok
  rw [Option.map_eq_none_iff.mp hrefused] at htrace
  cases htrace

end Session

end StackTrace
