import Mathlib.Data.List.Forall2
import StackTrace.Proofs.Store.Costs
import StackTrace.Universe.Capture

/-!
# What a capture records

The filter is asked about the activations whose class is alive, in order, and what it lets pass is
recorded up to the depth that the settings allow.  The walk is not looked at any further than that,
so what lies behind, be it an unreadable frame or an index that cannot be stored, does no harm.

## Key results

- `FrameFilter.recorded`, `FrameFilter.hiddenFirst`: what the filter makes of a walk as a whole
- `recordAll_fst`: how recording ends
- `recordAll_ok`: what has been written if it ends well
-/

namespace StackTrace

/-! ## The filter on a whole walk -/

/-- The activations whose class `Program.holder` still finds. -/
def FilterPolicy.seen (p : FilterPolicy) (as : List Activation) : List Activation :=
  as.filter fun a => (p.program.holder p.alive a.method).isSome

namespace FilterPolicy

/-- `FilterPolicy.seen` passes over an activation whose class is gone. -/
private theorem seen_cons_of_none {p : FilterPolicy} {a : Activation}
    (hholder : p.program.holder p.alive a.method = none) (as : List Activation) :
    p.seen (a :: as) = p.seen as := by
  simp only [seen, List.filter_cons, hholder, Option.isSome_none, Bool.false_eq_true, if_false]

/-- `FilterPolicy.seen` comes to an activation whose class can be found. -/
private theorem seen_cons_of_some {p : FilterPolicy} {a : Activation} {c : Class}
    (hholder : p.program.holder p.alive a.method = some c) (as : List Activation) :
    p.seen (a :: as) = a :: p.seen as := by
  simp only [seen, List.filter_cons, hholder, Option.isSome_some, if_true]

end FilterPolicy

namespace FrameFilter

variable (p : FilterPolicy) (f : FrameFilter)

/-- What `decideAll` decides about the methods of activations, in order. -/
def decisions (as : List Activation) : List FilterDecision :=
  f.decideAll p (as.map (·.method))

/-- The activations that `decisions` lets pass. -/
def recorded (as : List Activation) : List Activation :=
  ((as.zip (f.decisions p as)).filter fun (_, d) => d = .record).map Prod.fst

/-- Whether a hidden activation is left out before the first one is recorded. -/
def hiddenFirst (as : List Activation) : Bool :=
  ((f.decisions p as).takeWhile (· ≠ .record)).contains .skipHidden

/-- `FrameFilter.decisions` of an activation and of those behind it. -/
private theorem decisions_cons (a : Activation) (as : List Activation) :
    f.decisions p (a :: as) =
      (f.decide p a.method).1 :: (f.decide p a.method).2.decisions p as := rfl

/-- `FrameFilter.recorded` has an activation if it passes the filter. -/
private theorem recorded_cons (a : Activation) (as : List Activation) :
    f.recorded p (a :: as) =
      if (f.decide p a.method).1 = .record then a :: (f.decide p a.method).2.recorded p as
      else (f.decide p a.method).2.recorded p as := by
  rw [recorded, decisions_cons, List.zip_cons_cons, List.filter_cons]
  by_cases hrecord : (f.decide p a.method).1 = .record
  · simp only [hrecord, decide_true, if_true, List.map_cons]
    rfl
  · simp only [hrecord, decide_false, Bool.false_eq_true, if_false]
    rfl

/-- `FrameFilter.hiddenFirst` holds if the activation is hidden, or if it is left out and it holds of
    those behind it. -/
private theorem hiddenFirst_cons (a : Activation) (as : List Activation) :
    f.hiddenFirst p (a :: as) =
      ((f.decide p a.method).1 == .skipHidden ||
        ((f.decide p a.method).1 != .record && (f.decide p a.method).2.hiddenFirst p as)) := by
  rw [hiddenFirst, decisions_cons, List.takeWhile_cons]
  cases (f.decide p a.method).1 <;> rfl

end FrameFilter

/-! ## How recording ends -/

/-- Those of the activations that still fit under `maxDepth`, 0 standing for any number. -/
def upTo (maxDepth depth : Nat) (as : List Activation) : List Activation :=
  if maxDepth = 0 then as else as.take (maxDepth - depth)

/-- How recording ends when the filter lets the given activations pass and `error` ends the walk: the
    first index that cannot be stored counts, and the error only if the walk is read to its end. -/
def recordOutcome (p : FilterPolicy) (maxDepth depth : Nat) (error : Option DebugInfo.Error)
    (recorded : List Activation) : Except (Failure TraceError) Unit :=
  match (upTo maxDepth depth recorded).find? (fun a => !Location.fits a.bci) with
  | some a =>
    .error (.error (.bciOutOfRange (p.program.externalName p.alive a.method) a.bci))
  | none =>
    if maxDepth ≠ 0 ∧ maxDepth ≤ depth + recorded.length then .ok ()
    else
      match error with
      | none => .ok ()
      | some e => .error (.error (.debugInfo e))

section Outcome

variable (p : FilterPolicy) {maxDepth depth : Nat} (error : Option DebugInfo.Error)

/-- `upTo` of no activations. -/
private theorem upTo_nil : upTo maxDepth depth [] = [] := by
  unfold upTo
  split
  · rfl
  · exact List.take_nil

/-- `upTo` takes an activation as long as the greatest depth is not reached. -/
private theorem upTo_cons (hroom : maxDepth = 0 ∨ depth < maxDepth) (a : Activation)
    (as : List Activation) :
    upTo maxDepth depth (a :: as) = a :: upTo maxDepth (depth + 1) as := by
  unfold upTo
  split
  · rfl
  · have hleft : maxDepth - depth = maxDepth - (depth + 1) + 1 := by omega
    rw [hleft, List.take_succ_cons]

/-- `upTo` takes nothing at the greatest depth. -/
private theorem upTo_of_full (hne : maxDepth ≠ 0) (as : List Activation) :
    upTo maxDepth maxDepth as = [] := by
  rw [upTo, if_neg hne, Nat.sub_self, List.take_zero]

/-- `recordOutcome` at the greatest depth is good. -/
private theorem recordOutcome_of_full (hne : maxDepth ≠ 0) (as : List Activation) :
    recordOutcome p maxDepth maxDepth error as = .ok () := by
  unfold recordOutcome
  rw [upTo_of_full hne, List.find?_nil]
  simp only [ne_eq, hne, not_false_eq_true, Nat.le_add_right, and_self, if_true]

/-- `recordOutcome` at the end of the walk is the error that ended it. -/
private theorem recordOutcome_nil (hroom : maxDepth = 0 ∨ depth < maxDepth) :
    recordOutcome p maxDepth depth error [] =
      match error with
      | none => .ok ()
      | some e => .error (.error (.debugInfo e)) := by
  unfold recordOutcome
  rw [upTo_nil, List.find?_nil, if_neg (by rw [List.length_nil]; omega)]

/-- `recordOutcome` goes on behind an index that can be stored. -/
private theorem recordOutcome_cons_of_fits (hroom : maxDepth = 0 ∨ depth < maxDepth) {a : Activation}
    (hfits : Location.fits a.bci = true) (as : List Activation) :
    recordOutcome p maxDepth depth error (a :: as) =
      recordOutcome p maxDepth (depth + 1) error as := by
  have hlen : depth + (a :: as).length = depth + 1 + as.length := by
    rw [List.length_cons]
    omega
  unfold recordOutcome
  rw [upTo_cons hroom, List.find?_cons, hfits, hlen]
  rfl

/-- `recordOutcome` at an index that cannot be stored names the method and the index. -/
private theorem recordOutcome_cons_of_not_fits (hroom : maxDepth = 0 ∨ depth < maxDepth) {a : Activation}
    (hfits : Location.fits a.bci = false) (as : List Activation) :
    recordOutcome p maxDepth depth error (a :: as) =
      .error (.error (.bciOutOfRange (p.program.externalName p.alive a.method) a.bci)) := by
  unfold recordOutcome
  rw [upTo_cons hroom, List.find?_cons, hfits]
  rfl

end Outcome

/-! ## The loop -/

section Loop

variable {p : FilterPolicy} {maxDepth : Nat} {error : Option DebugInfo.Error} {f : FrameFilter}
  {b : Builder} {m : Memory}

/-- `atMaxDepth` holds if there is a greatest depth and it has been reached. -/
private theorem atMaxDepth_iff : atMaxDepth maxDepth b = true ↔ maxDepth ≠ 0 ∧ b.depth = maxDepth := by
  simp only [atMaxDepth, Bool.and_eq_true, bne_iff_ne, beq_iff_eq]

/-- Unless `atMaxDepth` holds, there is room for a further frame. -/
private theorem room_of_not_atMaxDepth (hcap : maxDepth = 0 ∨ b.depth ≤ maxDepth)
    (hmax : atMaxDepth maxDepth b = false) : maxDepth = 0 ∨ b.depth < maxDepth := by
  rcases hcap with hzero | hle
  · exact .inl hzero
  · by_cases hzero : maxDepth = 0
    · exact .inl hzero
    · -- At the greatest depth `atMaxDepth` would have said so
      refine .inr (Nat.lt_of_le_of_ne hle fun heq => ?_)
      rw [atMaxDepth_iff.mpr ⟨hzero, heq⟩] at hmax
      exact nomatch hmax

/-- `recordAll` looks at nothing more once `atMaxDepth` holds. -/
theorem recordAll_of_atMaxDepth (hmax : atMaxDepth maxDepth b = true) (as : List Activation) :
    recordAll p maxDepth error f b m as = (.ok (), b, m) := by
  cases as with
  | nil => simp only [recordAll, hmax, if_true]
  | cons a as => simp only [recordAll, hmax, if_true]

/-- `recordAll` has ended well once `atMaxDepth` holds, whatever is left of the walk. -/
private theorem recordAll_fst_of_atMaxDepth (hmax : atMaxDepth maxDepth b = true) (as : List Activation) :
    (recordAll p maxDepth error f b m as).1 =
      recordOutcome p maxDepth b.depth error (f.recorded p (p.seen as)) := by
  obtain ⟨hne, hdepth⟩ := atMaxDepth_iff.mp hmax
  rw [recordAll_of_atMaxDepth hmax, hdepth, recordOutcome_of_full p error hne]

/-- What `recordAll` does with the next activation, on any memory: it passes over one whose class is
    gone, pushes one that the filter lets pass, marks that the innermost one is hidden, or leaves one
    out. -/
theorem recordAll_cons (hmax : atMaxDepth maxDepth b = false) (a : Activation)
    (as : List Activation) :
    (p.program.holder p.alive a.method = none ∧
      ∀ m, recordAll p maxDepth error f b m (a :: as) = recordAll p maxDepth error f b m as) ∨
    ∃ c d f', p.program.holder p.alive a.method = some c ∧ f.decide p a.method = (d, f') ∧
      ((d = .record ∧ ∀ m, recordAll p maxDepth error f b m (a :: as) =
          match b.push m c a.method a.bci with
          | (.error e, b, m) => (.error e, b, m)
          | (.ok (), b, m) => recordAll p maxDepth error f' b m as) ∨
        (d = .skipHidden ∧ b.depth = 0 ∧ ∀ m, recordAll p maxDepth error f b m (a :: as) =
          match b.markHiddenTop m with
          | (.error e, b, m) => (.error e, b, m)
          | (.ok (), b, m) => recordAll p maxDepth error f' b m as) ∨
        (d ≠ .record ∧ (d = .skipHidden → b.depth ≠ 0) ∧
          ∀ m, recordAll p maxDepth error f b m (a :: as) =
            recordAll p maxDepth error f' b m as)) := by
  cases hholder : p.program.holder p.alive a.method with
  | none =>
    refine .inl ⟨rfl, fun m => ?_⟩
    rw [recordAll]
    simp only [hmax, Bool.false_eq_true, if_false, hholder]
  | some c =>
    obtain ⟨d, f', hdecide⟩ : ∃ d f', f.decide p a.method = (d, f') := ⟨_, _, rfl⟩
    refine .inr ⟨c, d, f', rfl, hdecide, ?_⟩
    simp only [recordAll, hmax, Bool.false_eq_true, if_false, hholder, hdecide]
    cases d with
    | record => exact .inl ⟨rfl, fun _ => rfl⟩
    | skipHidden =>
      -- A hidden activation sets the mark only in front of all others
      by_cases hdepth : b.depth = 0
      · exact .inr (.inl ⟨rfl, hdepth, fun _ => if_pos hdepth⟩)
      · exact .inr (.inr ⟨by decide, fun _ => hdepth, fun _ => if_neg hdepth⟩)
    | skipFillInStackTrace =>
      exact .inr (.inr ⟨by decide, fun hskip => absurd hskip (by decide), fun _ => rfl⟩)
    | skipConstructor =>
      exact .inr (.inr ⟨by decide, fun hskip => absurd hskip (by decide), fun _ => rfl⟩)

/-- How `recordAll` ends: what the filter lets pass decides, on memory that never refuses. -/
theorem recordAll_fst {n : Nat} {m₀ : Memory} (hm₀ : m₀.NeverRefusesInScope)
    (as : List Activation) (hb : b.Sound) (hspent : Builder.Spent n m₀ b m)
    (hcap : maxDepth = 0 ∨ b.depth ≤ maxDepth) :
    (recordAll p maxDepth error f b m as).1 =
      recordOutcome p maxDepth b.depth error (f.recorded p (p.seen as)) := by
  -- Induction on what is left of the walk, with the filter and the builder as they then are
  induction as generalizing f b m with
  | nil =>
    cases hmax : atMaxDepth maxDepth b with
    | true => exact recordAll_fst_of_atMaxDepth hmax _
    | false =>
      have hroom := room_of_not_atMaxDepth hcap hmax
      simp only [recordAll, hmax, Bool.false_eq_true, if_false]
      refine Eq.trans ?_ (recordOutcome_nil p error hroom).symm
      cases error <;> rfl
  | cons a as ih =>
    cases hmax : atMaxDepth maxDepth b with
    | true => exact recordAll_fst_of_atMaxDepth hmax _
    | false =>
      have hroom := room_of_not_atMaxDepth hcap hmax
      rcases recordAll_cons hmax a as with ⟨hgone, heq⟩ | ⟨c, d, f', hholder, hdecide, hcase⟩
      · rw [heq, FilterPolicy.seen_cons_of_none hgone]
        exact ih hb hspent hcap
      · rw [FilterPolicy.seen_cons_of_some hholder, FrameFilter.recorded_cons, hdecide]
        rcases hcase with ⟨rfl, heq⟩ | ⟨rfl, -, heq⟩ | ⟨hne, -, heq⟩
        · rw [heq, if_pos rfl]
          -- Memory is never refused, so only the index can make the push fail
          cases hfits : Location.fits a.bci with
          | false =>
            rw [Builder.push_of_not_fits hfits, recordOutcome_cons_of_not_fits p error hroom hfits,
              Program.externalName, hholder]
          | true =>
            obtain ⟨b', m', hpush, hspent'⟩ := hspent.push hm₀ hb c a.method hfits
            have hpushed := hb.push_ok hpush
            have hdepth := hpushed.depth_eq
            rw [hpush, recordOutcome_cons_of_fits p error hroom hfits, ← hdepth]
            exact ih hpushed.sound hspent' (by omega)
        -- The mark is granted, and it is no frame
        · obtain ⟨b', m', hmark, hspent'⟩ := hspent.markHiddenTop hm₀
          have hmarked := hb.markHiddenTop_ok hmark
          rw [heq, hmark, if_neg nofun, ← hmarked.depth_eq]
          exact ih hmarked.sound hspent' (by rw [hmarked.depth_eq]; exact hcap)
        · rw [heq, if_neg hne]
          exact ih hb hspent hcap

/-- The frame stores an activation whose class `Program.holder` still finds. -/
def FilterPolicy.Describes (p : FilterPolicy) (a : Activation) (frame : StoredFrame) : Prop :=
  ∃ c, p.program.holder p.alive a.method = some c ∧ frame.Records c a.method a.bci

/-- What `recordAll` has written if it ended well: what the filter lets pass, up to the greatest depth.
    The mark is set if a hidden activation was left out before anything was written. -/
structure Recorded (p : FilterPolicy) (maxDepth : Nat) (f : FrameFilter) (as : List Activation)
    (b b' : Builder) : Prop where
  sound : b'.Sound
  written_eq : ∃ fs, b'.written = b.written ++ fs ∧
    List.Forall₂ p.Describes (upTo maxDepth b.depth (f.recorded p as)) fs
  hidden_eq : b'.store.hasHiddenTop =
    (b.store.hasHiddenTop || (b.depth == 0 && f.hiddenFirst p as))

/-- `Recorded` where nothing passes the filter any more, so that nothing is written. -/
private theorem Recorded.none (hb : b.Sound) {as : List Activation}
    (hnone : upTo maxDepth b.depth (f.recorded p as) = [])
    (hhidden : (b.depth == 0 && f.hiddenFirst p as) = false) : Recorded p maxDepth f as b b where
  sound := hb
  written_eq := ⟨[], (List.append_nil _).symm, hnone ▸ .nil⟩
  hidden_eq := by rw [hhidden, Bool.or_false]

section Steps

variable {f' : FrameFilter} {a : Activation} {as : List Activation} {b₁ b' : Builder}

/-- `Recorded` for an activation that passes the filter and is written in front of the others. -/
private theorem Recorded.cons_record {c : Class} (hroom : maxDepth = 0 ∨ b.depth < maxDepth)
    (hholder : p.program.holder p.alive a.method = some c)
    (hdecide : f.decide p a.method = (.record, f')) (hpushed : b.Pushed b₁ c a.method a.bci)
    (h : Recorded p maxDepth f' as b₁ b') : Recorded p maxDepth f (a :: as) b b' := by
  have hdepth := hpushed.depth_eq
  obtain ⟨frame, hframe, hwritten₁⟩ := hpushed.written_eq
  obtain ⟨hsound, ⟨fs, hwritten, hfs⟩, hhidden⟩ := h
  refine ⟨hsound, ⟨frame :: fs, ?_, ?_⟩, ?_⟩
  · rw [hwritten, hwritten₁, List.append_assoc]
    rfl
  · rw [FrameFilter.recorded_cons, hdecide, if_pos rfl, upTo_cons hroom, ← hdepth]
    exact .cons ⟨c, hholder, hframe⟩ hfs
  · -- Something is written now, so no later activation sets the mark
    have hpos : (b₁.depth == 0) = false := beq_false_of_ne (by omega)
    rw [hhidden, FrameFilter.hiddenFirst_cons, hdecide, Store.hasHiddenTop, hpushed.hiddenTop_eq,
      ← Store.hasHiddenTop, hpos]
    exact congrArg _ (Bool.and_false _).symm

/-- `Recorded` for a hidden activation that is left out before anything is written, which sets the
    mark. -/
private theorem Recorded.cons_skipHidden (hdecide : f.decide p a.method = (.skipHidden, f'))
    (hzero : b.depth = 0) (hmarked : b.Marked b₁) (h : Recorded p maxDepth f' as b₁ b') :
    Recorded p maxDepth f (a :: as) b b' := by
  obtain ⟨hsound, ⟨fs, hwritten, hfs⟩, hhidden⟩ := h
  rw [hmarked.depth_eq] at hfs
  refine ⟨hsound, ⟨fs, hwritten.trans (by rw [hmarked.written_eq]), ?_⟩, ?_⟩
  · rw [FrameFilter.recorded_cons, hdecide, if_neg nofun]
    exact hfs
  · rw [hhidden, FrameFilter.hiddenFirst_cons, hdecide, hmarked.hidden_eq, hzero]
    exact (Bool.or_true _).symm

/-- `Recorded` for any other activation that is left out, which changes nothing. -/
private theorem Recorded.cons_skip {d : FilterDecision} (hdecide : f.decide p a.method = (d, f'))
    (hne : d ≠ .record) (hskip : d = .skipHidden → b.depth ≠ 0)
    (h : Recorded p maxDepth f' as b b') : Recorded p maxDepth f (a :: as) b b' := by
  obtain ⟨hsound, ⟨fs, hwritten, hfs⟩, hhidden⟩ := h
  refine ⟨hsound, ⟨fs, hwritten, ?_⟩, ?_⟩
  · rw [FrameFilter.recorded_cons, hdecide, if_neg hne]
    exact hfs
  · rw [hhidden, FrameFilter.hiddenFirst_cons, hdecide]
    -- One that is hidden does not count any more, and the other kinds never do
    cases d with
    | record => exact absurd rfl hne
    | skipHidden => simp only [beq_false_of_ne (hskip rfl), Bool.false_and]
    | skipFillInStackTrace => rfl
    | skipConstructor => rfl

end Steps

/-- Whatever the memory is like, `recordAll` that ends well has written what passes the filter. -/
theorem recordAll_ok (as : List Activation) (hb : b.Sound)
    (hcap : maxDepth = 0 ∨ b.depth ≤ maxDepth) {b' : Builder} {m' : Memory}
    (h : recordAll p maxDepth error f b m as = (.ok (), b', m')) :
    Recorded p maxDepth f (p.seen as) b b' := by
  induction as generalizing f b m with
  | nil =>
    -- At the end of the walk nothing is done, and a walk that ended in an error does not end well
    have hsame : b' = b := by
      unfold recordAll at h
      split at h
      · cases h
        rfl
      · split at h
        · cases h
          rfl
        · cases h
    subst hsame
    exact Recorded.none hb upTo_nil (Bool.and_false _)
  | cons a as ih =>
    cases hmax : atMaxDepth maxDepth b with
    | true =>
      obtain ⟨hne, hdepth⟩ := atMaxDepth_iff.mp hmax
      rw [recordAll_of_atMaxDepth hmax] at h
      cases h
      -- The greatest depth is not 0, so something has been written
      refine Recorded.none hb (by rw [hdepth, upTo_of_full hne]) ?_
      rw [hdepth, beq_false_of_ne hne, Bool.false_and]
    | false =>
      have hroom := room_of_not_atMaxDepth hcap hmax
      -- Recording has ended well, so neither a push nor the mark was refused
      rcases recordAll_cons hmax a as with ⟨hgone, heq⟩ | ⟨c, d, f', hholder, hdecide, hcase⟩
      · rw [heq] at h
        rw [FilterPolicy.seen_cons_of_none hgone]
        exact ih hb hcap h
      · rw [FilterPolicy.seen_cons_of_some hholder]
        rcases hcase with ⟨rfl, heq⟩ | ⟨rfl, hzero, heq⟩ | ⟨hne, hskip, heq⟩
        · rw [heq] at h
          split at h
          · cases h
          · rename_i b₁ m₁ hpush
            have hpushed := hb.push_ok hpush
            have hdepth := hpushed.depth_eq
            exact (ih hpushed.sound (by omega) h).cons_record hroom hholder hdecide hpushed
        · rw [heq] at h
          split at h
          · cases h
          · rename_i b₁ m₁ hmark
            have hmarked := hb.markHiddenTop_ok hmark
            have hdepth := hmarked.depth_eq
            exact (ih hmarked.sound (by omega) h).cons_skipHidden hdecide hzero hmarked
        · rw [heq] at h
          exact (ih hb hcap h).cons_skip hdecide hne hskip

end Loop

end StackTrace
