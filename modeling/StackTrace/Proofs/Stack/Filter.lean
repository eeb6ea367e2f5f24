import Mathlib.Data.List.TakeWhile
import Mathlib.Logic.Relation
import StackTrace.Proofs.Program.Ownership
import StackTrace.Stack.Filter

/-!
# The filter as a whole

A filter is asked about one method after the other.  Its answers fall into three parts: calls of
`fillInStackTrace` at the front, constructors behind them, and everything else, about which each method
alone decides.  The first two parts are as long as they can be, and each ends for good: what comes
later may look the same and is still judged as everything else is.

Between two questions classes may be loaded and unloaded, so each question comes with the program and
the classes that are alive at that moment.

## Key results

- `Program.mem_ancestors_iff`: the ancestors of a class are what its superclasses lead to
- `FrameFilter.answers_fillIns`, `FrameFilter.answers_constructors`, `FrameFilter.answers_rest`: what is
  answered while both checks are on, with only the second one on, and with none
- `FrameFilter.answers_start`: the answers of one filter to any questions
-/

namespace StackTrace

/-! ## The classes above a class -/

/-- The class `y` is the superclass of `x`, and so it was defined before it. -/
def Program.Extends (p : Program) (x y : ClassId) : Prop :=
  (p.get? x).bind (·.super) = some y ∧ y.index < x.index

/-- `Program.ancestors` of a class are the class itself and what its superclasses lead to. -/
theorem Program.mem_ancestors_iff {p : Program} {x y : ClassId} :
    y ∈ p.ancestors x ↔ Relation.ReflTransGen p.Extends x y := by
  constructor
  · intro h
    -- Along the recursion of `ancestors`, and back along the path
    fun_induction p.ancestors x with
    | case1 x => rw [List.mem_singleton.mp h]
    | case2 x sup hsuper hlt ih =>
      rcases List.mem_cons.mp h with rfl | h
      · exact .refl
      · exact .head ⟨hsuper, hlt⟩ (ih h)
    | case3 x => rw [List.mem_singleton.mp h]
  · intro h
    induction h using Relation.ReflTransGen.head_induction_on with
    | refl => exact p.mem_ancestors_self y
    | head hextends _ ih =>
      rw [ancestors_of_super hextends.1 hextends.2]
      exact List.mem_cons_of_mem _ ih

/-! ## Questions -/

/-- A method that a filter is asked about, with what is loaded and alive at that moment. -/
structure FilterQuery where
  program : Program
  alive : ClassId → Bool
  method : Method

namespace FilterQuery

/-- The method has the given name, and its class is not gone and is `cls` or a superclass of it. -/
structure IsOf (cls : ClassId) (name : String) (q : FilterQuery) : Prop where
  name_eq : q.method.name.text = name
  alive : q.alive q.method.holder = true
  super : Relation.ReflTransGen q.program.Extends cls q.method.holder

/-- What `FrameFilter.decide` answers about a method when neither of the two checks is on. -/
def plain (showHidden : Bool) (q : FilterQuery) : FilterDecision :=
  if q.method.flags.hidden && !showHidden then .skipHidden else .record

variable (names : WellKnownNames) (cls : ClassId) (showHidden : Bool) (q : FilterQuery)

/-- What `FrameFilter.decide` looks at besides the method. -/
def policy : FilterPolicy := ⟨q.program, names, q.alive, cls, showHidden⟩

/-- What `FilterPolicy.isFillIn` says of the method that is asked about. -/
def isFillIn : Bool := (q.policy names cls showHidden).isFillIn q.method

/-- What `FilterPolicy.isConstructor` says of the method that is asked about. -/
def isConstructor : Bool := (q.policy names cls showHidden).isConstructor q.method

/-- `FilterPolicy.inHierarchy` says that the class of the method is alive, and that of the throwable or
    a superclass of it. -/
private theorem inHierarchy_iff : (q.policy names cls showHidden).inHierarchy q.method = true ↔
    q.alive q.method.holder = true ∧
      Relation.ReflTransGen q.program.Extends cls q.method.holder := by
  rw [FilterPolicy.inHierarchy, Bool.and_eq_true, Program.isSubclass, List.contains_iff_mem,
    Program.mem_ancestors_iff]
  rfl

/-- `FilterQuery.IsOf` is what the filter tests: the name, and the place in the hierarchy. -/
private theorem isOf_iff {name : String} : q.IsOf cls name ↔
    q.method.name.text = name ∧ (q.policy names cls showHidden).inHierarchy q.method = true := by
  rw [inHierarchy_iff]
  exact ⟨fun ⟨hname, halive, hsuper⟩ => ⟨hname, halive, hsuper⟩,
    fun ⟨hname, halive, hsuper⟩ => ⟨hname, halive, hsuper⟩⟩

/-- `FilterQuery.isFillIn` tests for the first of the two names. -/
private theorem isFillIn_iff : q.isFillIn names cls showHidden = true ↔
    q.IsOf cls names.fillInStackTrace.text := by
  rw [q.isOf_iff names cls showHidden, isFillIn, FilterPolicy.isFillIn, Bool.and_eq_true,
    Symbol.sameText, beq_iff_eq]
  rfl

/-- `FilterQuery.isConstructor` tests for the second of the two names. -/
private theorem isConstructor_iff : q.isConstructor names cls showHidden = true ↔
    q.IsOf cls names.constructor.text := by
  rw [q.isOf_iff names cls showHidden, isConstructor, FilterPolicy.isConstructor, Bool.and_eq_true,
    Symbol.sameText, beq_iff_eq]
  rfl

end FilterQuery

/-! ## Answers -/

/-- The front of a list is the longest whose members all satisfy `P`. -/
structure LongestFront {α : Type} (P : α → Prop) (front rest : List α) : Prop where
  all : ∀ x ∈ front, P x
  stops : ∀ x ∈ rest.head?, ¬P x

/-- `List.takeWhile` is a `LongestFront`. -/
private theorem longestFront_takeWhile {α : Type} {P : α → Prop} {test : α → Bool}
    (htest : ∀ x, test x = true ↔ P x) (xs : List α) :
    LongestFront P (xs.takeWhile test) (xs.dropWhile test) where
  all := fun x hx => (htest x).mp (List.mem_takeWhile_imp hx)
  stops := by
    intro x hx hP
    have hstop := List.head?_dropWhile_not test xs
    rw [Option.mem_def.mp hx] at hstop
    exact absurd ((htest x).mpr hP) (Bool.eq_false_iff.mp hstop)

/-- What may be decided later than a decision, since a check that is off stays off. -/
def FilterDecision.Allows : FilterDecision → FilterDecision → Prop
  | .skipFillInStackTrace, _ => True
  | .skipConstructor, later => later ≠ .skipFillInStackTrace
  | .record, later | .skipHidden, later =>
    later ≠ .skipFillInStackTrace ∧ later ≠ .skipConstructor

namespace FrameFilter

variable (names : WellKnownNames) (cls : ClassId) (showHidden : Bool)

/-- What `FrameFilter.decide` answers to questions that come one after the other. -/
def answers (f : FrameFilter) : List FilterQuery → List FilterDecision
  | [] => []
  | q :: qs =>
    let (d, f) := f.decide (q.policy names cls showHidden) q.method
    d :: f.answers qs

/-- `FrameFilter.answers` are the decisions about the methods, as long as nothing changes between the
    questions. -/
theorem answers_unchanging (p : FilterPolicy) (f : FrameFilter) (methods : List Method) :
    f.answers p.names p.throwableClass p.showHidden
        (methods.map fun m => ⟨p.program, p.alive, m⟩) = f.decideAll p methods := by
  induction methods generalizing f with
  | nil => rfl
  | cons m methods ih =>
    simp only [List.map_cons, answers, ih]
    rfl

variable {names cls showHidden}

/-- `FrameFilter.answers` with both checks off: each method alone decides. -/
theorem answers_rest (qs : List FilterQuery) :
    answers names cls showHidden ⟨false, false⟩ qs = qs.map (FilterQuery.plain showHidden) := by
  induction qs with
  | nil => rfl
  | cons q qs ih =>
    rw [List.map_cons, ← ih]
    rfl

/-- A filter that gives one answer, and stays as it is, for as long as the methods pass a test, and decides
    about the first other one as `f'` does, goes on as `f'` from there. -/
private theorem answers_while {f f' : FrameFilter} {test : FilterQuery → Bool} {d : FilterDecision}
    (hstay : ∀ q, test q = true → f.decide (q.policy names cls showHidden) q.method = (d, f))
    (hleave : ∀ q, test q = false → f.decide (q.policy names cls showHidden) q.method =
      f'.decide (q.policy names cls showHidden) q.method) (qs : List FilterQuery) :
    f.answers names cls showHidden qs =
      (qs.takeWhile test).map (fun _ => d) ++ f'.answers names cls showHidden (qs.dropWhile test) := by
  induction qs with
  | nil => rfl
  | cons q qs ih =>
    cases hq : test q with
    | true =>
      rw [List.takeWhile_cons_of_pos hq, List.dropWhile_cons_of_pos hq, List.map_cons, List.cons_append,
        ← ih, answers, hstay q hq]
    | false =>
      have hq' : ¬test q = true := Bool.eq_false_iff.mp hq
      rw [List.takeWhile_cons_of_neg hq', List.dropWhile_cons_of_neg hq', answers, hleave q hq]
      rfl

/-- `FrameFilter.answers` with the second check on: constructors are skipped until there is a question
    about another method. -/
theorem answers_constructors (qs : List FilterQuery) :
    answers names cls showHidden ⟨false, true⟩ qs =
      (qs.takeWhile (·.isConstructor names cls showHidden)).map (fun _ => .skipConstructor) ++
        (qs.dropWhile (·.isConstructor names cls showHidden)).map (FilterQuery.plain showHidden) := by
  rw [← answers_rest]
  refine answers_while (fun q hq => ?_) (fun q hq => ?_) qs
  · exact if_pos hq
  · -- The check goes off for good
    exact if_neg (Bool.eq_false_iff.mp hq)

/-- With both checks on, calls of `fillInStackTrace` are skipped until there is a question about another
    method, which is answered as if that check had been off before. -/
theorem answers_fillIns (qs : List FilterQuery) :
    start.answers names cls showHidden qs =
      (qs.takeWhile (·.isFillIn names cls showHidden)).map (fun _ => .skipFillInStackTrace) ++
        answers names cls showHidden ⟨false, true⟩
          (qs.dropWhile (·.isFillIn names cls showHidden)) := by
  refine answers_while (fun q hq => ?_) (fun q hq => ?_) qs
  · exact if_pos hq
  · exact if_neg (Bool.eq_false_iff.mp hq)

/-- `FilterDecision.Allows` a plain answer after any other: with both checks off nothing is left out on
    account of its name. -/
private theorem allows_plain (d : FilterDecision) (q : FilterQuery) : d.Allows (q.plain showHidden) := by
  have hne : q.plain showHidden ≠ .skipFillInStackTrace ∧ q.plain showHidden ≠ .skipConstructor := by
    rw [FilterQuery.plain]
    split
    · exact ⟨nofun, nofun⟩
    · exact ⟨nofun, nofun⟩
  cases d with
  | skipFillInStackTrace => trivial
  | skipConstructor => exact hne.1
  | record => exact hne
  | skipHidden => exact hne

/-- `FilterDecision.Allows` holds from each of the three parts to those behind it, and inside each. -/
private theorem pairwise_allows (fills constructors rest : List FilterQuery) :
    (fills.map (fun _ => FilterDecision.skipFillInStackTrace) ++
      (constructors.map (fun _ => FilterDecision.skipConstructor) ++
        rest.map (FilterQuery.plain showHidden))).Pairwise FilterDecision.Allows := by
  have hrest : (rest.map (FilterQuery.plain showHidden)).Pairwise FilterDecision.Allows :=
    List.pairwise_map.mpr (List.pairwise_of_forall fun _ q => allows_plain _ q)
  have hconstructors : (constructors.map (fun _ => FilterDecision.skipConstructor) ++
      rest.map (FilterQuery.plain showHidden)).Pairwise FilterDecision.Allows := by
    refine List.pairwise_append.mpr ⟨?_, hrest, fun d _ later hlater => ?_⟩
    · exact List.pairwise_map.mpr (List.pairwise_of_forall fun _ _ => nofun)
    · obtain ⟨q, -, rfl⟩ := List.mem_map.mp hlater
      exact allows_plain d q
  refine List.pairwise_append.mpr ⟨?_, hconstructors, fun d hd later _ => ?_⟩
  · exact List.pairwise_map.mpr (List.pairwise_of_forall fun _ _ => trivial)
  · obtain ⟨q, -, rfl⟩ := List.mem_map.mp hd
    trivial

/-- What one filter decides about any methods, for a throwable of any class, whatever is loaded and unloaded
    in between.  The longest front of them that are called `fillInStackTrace` and whose class, which is not
    gone, is that of the throwable or a superclass of it, is skipped.  Then the longest front of the others
    that are constructors of such a class is.  Of the rest, a method is left out exactly if it is hidden and
    hidden ones are not shown.  Nothing that comes later is skipped again on account of its name. -/
theorem answers_start (symbols : SymbolTable) (cls : ClassId) (showHidden : Bool)
    (qs : List FilterQuery) :
    let answers := start.answers (WellKnownNames.intern symbols).1 cls showHidden qs
    (∃ fills constructors rest, qs = fills ++ (constructors ++ rest) ∧
      LongestFront (·.IsOf cls "fillInStackTrace") fills (constructors ++ rest) ∧
      LongestFront (·.IsOf cls "<init>") constructors rest ∧
      answers = fills.map (fun _ => .skipFillInStackTrace) ++
        (constructors.map (fun _ => .skipConstructor) ++
          rest.map fun q => if q.method.flags.hidden && !showHidden then .skipHidden else .record)) ∧
    answers.Pairwise FilterDecision.Allows := by
  intro answers
  let names := (WellKnownNames.intern symbols).1
  have hfillIn : names.fillInStackTrace.text = "fillInStackTrace" := SymbolTable.text_intern _ _
  have hconstructor : names.constructor.text = "<init>" := SymbolTable.text_intern _ _
  let isFillIn := fun q : FilterQuery => q.isFillIn names cls showHidden
  let isConstructor := fun q : FilterQuery => q.isConstructor names cls showHidden
  let behind := qs.dropWhile isFillIn
  -- The two fronts, and what is left behind them
  have hparts : answers = (qs.takeWhile isFillIn).map (fun _ => .skipFillInStackTrace) ++
      ((behind.takeWhile isConstructor).map (fun _ => .skipConstructor) ++
        (behind.dropWhile isConstructor).map (FilterQuery.plain showHidden)) := by
    rw [← answers_constructors, ← answers_fillIns]
  have hbehind : behind.takeWhile isConstructor ++ behind.dropWhile isConstructor = behind :=
    List.takeWhile_append_dropWhile
  refine ⟨⟨qs.takeWhile isFillIn, behind.takeWhile isConstructor, behind.dropWhile isConstructor,
    ?_, ?_, ?_, hparts⟩, ?_⟩
  -- The parts make up the questions, the fronts are the longest, and the answers come in order
  · rw [hbehind, List.takeWhile_append_dropWhile]
  · rw [hbehind]
    exact longestFront_takeWhile (fun q => hfillIn ▸ q.isFillIn_iff names cls showHidden) qs
  · exact longestFront_takeWhile (fun q => hconstructor ▸ q.isConstructor_iff names cls showHidden) behind
  · rw [hparts]
    exact pairwise_allows _ _ _

end FrameFilter

end StackTrace
