import Mathlib.Data.List.TakeWhile
import StackTrace.Settings.Environment

/-!
# Counts in the environment

A variable that stands for a number may be set to any text.  `IsCount` says which texts are counts, and
what number each is, without the reader: decimal digits, after a plus sign or not, between blanks, that
fit into a word.

## Key results

- `parseCount_eq_ok_iff`: a text is read as a number exactly if it is a count of that number
- `Environment.count?_eq_ok_iff`, `Environment.count?_error`: what a variable is read as
-/

namespace StackTrace

/-- The number that decimal digits stand for, behind those that stand for `value`. -/
def numeralFrom (value : Nat) (digits : List Char) : Nat :=
  digits.foldl (fun value c => value * 10 + (c.toNat - '0'.toNat)) value

/-- The text is a count of `n`: of decimal digits that fit into a word, with a plus sign in front or
    not, and any blanks around it. -/
def IsCount (text : String) (n : Nat) : Prop :=
  ∃ front sign digits back, text.toList = front ++ (sign ++ digits) ++ back ∧
    (∀ c ∈ front, isBlank c = true) ∧ (∀ c ∈ back, isBlank c = true) ∧
    (sign = [] ∨ sign = ['+']) ∧ digits ≠ [] ∧ (∀ c ∈ digits, c.isDigit = true) ∧
    numeralFrom 0 digits = n ∧ n ≤ 18446744073709551615

/-! ## Digits -/

/-- `numeralFrom` grows with the digits. -/
private theorem le_numeralFrom (value : Nat) (digits : List Char) : value ≤ numeralFrom value digits := by
  induction digits generalizing value with
  | nil => exact Nat.le_refl value
  | cons c digits ih =>
    have hnext := ih (value * 10 + (c.toNat - '0'.toNat))
    show value ≤ numeralFrom (value * 10 + (c.toNat - '0'.toNat)) digits
    omega

/-- `countFrom` reads digits as the number that they stand for, unless that is too large.  That it gets
    too large on the way is the same, since further digits do not make it smaller. -/
private theorem countFrom_eq_ok_iff {value n : Nat} (hvalue : value ≤ 18446744073709551615) (cs : List Char) :
    countFrom value cs = .ok n ↔
      (∀ c ∈ cs, c.isDigit = true) ∧ numeralFrom value cs = n ∧ n ≤ 18446744073709551615 := by
  -- Induction on the characters, with the value of those before
  induction cs generalizing value with
  | nil =>
    simp only [countFrom, numeralFrom, List.foldl_nil, Except.ok.injEq]
    constructor
    · rintro rfl
      exact ⟨fun _ h => (List.not_mem_nil h).elim, rfl, hvalue⟩
    · exact fun h => h.2.1
  | cons c cs ih =>
    have hle := le_numeralFrom (value * 10 + (c.toNat - '0'.toNat)) cs
    simp only [countFrom, List.forall_mem_cons]
    by_cases hdigit : c.isDigit = true
    · by_cases hlarge : value * 10 + (c.toNat - '0'.toNat) > 18446744073709551615
      -- Too large already, and so is what `numeralFrom` comes to
      · simp only [hdigit, if_true, hlarge]
        constructor
        · exact nofun
        · rintro ⟨-, hn, hlt⟩
          change numeralFrom (value * 10 + (c.toNat - '0'.toNat)) cs = n at hn
          omega
      · simp only [hdigit, if_true, hlarge, if_false, true_and]
        exact ih (by omega)
    · simp only [hdigit, Bool.false_eq_true, if_false, false_and, iff_false]
      exact nofun

/-- `isBlank` is false of digits. -/
private theorem isBlank_of_isDigit {c : Char} (h : c.isDigit = true) : isBlank c = false := by
  have hrange : 48 ≤ c.toNat ∧ c.toNat ≤ 57 := by
    simp only [Char.isDigit, Bool.and_eq_true, decide_eq_true_eq] at h
    exact h
  obtain ⟨hlow, hhigh⟩ := hrange
  unfold isBlank
  simp only [Bool.or_eq_false_iff, Bool.and_eq_false_iff, beq_eq_false_iff_ne,
    decide_eq_false_iff_not]
  omega

/-! ## Blanks -/

/-- `trimBlanks` leaves the text between blanks. -/
private theorem trimBlanks_of_blanks {front core back : List Char}
    (hfront : ∀ c ∈ front, isBlank c = true) (hback : ∀ c ∈ back, isBlank c = true)
    (hcore : ∀ c ∈ core, isBlank c = false) (hne : core ≠ []) :
    trimBlanks (front ++ core ++ back) = core := by
  -- Text without blanks stops `dropWhile`, from the front as from the back
  have hstop : ∀ (cs rest : List Char), cs ≠ [] → (∀ c ∈ cs, isBlank c = false) →
      (cs ++ rest).dropWhile isBlank = cs ++ rest := by
    intro cs rest hcs hblank
    cases cs with
    | nil => exact absurd rfl hcs
    | cons c cs =>
      rw [List.cons_append, List.dropWhile_cons_of_neg]
      exact Bool.not_eq_true _ ▸ hblank c List.mem_cons_self
  unfold trimBlanks
  rw [List.append_assoc, List.dropWhile_append_of_pos hfront, hstop core back hne hcore,
    List.reverse_append,
    List.dropWhile_append_of_pos fun c hc => hback c (List.mem_reverse.mp hc)]
  have hreverse := hstop core.reverse [] (mt List.reverse_eq_nil_iff.mp hne)
    fun c hc => hcore c (List.mem_reverse.mp hc)
  rw [List.append_nil] at hreverse
  rw [hreverse, List.reverse_reverse]

/-- `trimBlanks` takes away nothing but blanks. -/
private theorem exists_blanks_trimBlanks (cs : List Char) :
    ∃ front back, cs = front ++ trimBlanks cs ++ back ∧ (∀ c ∈ front, isBlank c = true) ∧
      ∀ c ∈ back, isBlank c = true := by
  refine ⟨cs.takeWhile isBlank, ((cs.dropWhile isBlank).reverse.takeWhile isBlank).reverse, ?_,
    fun c hc => List.mem_takeWhile_imp hc,
    fun c hc => List.mem_takeWhile_imp (List.mem_reverse.mp hc)⟩
  unfold trimBlanks
  rw [List.append_assoc, ← List.reverse_append, List.takeWhile_append_dropWhile, List.reverse_reverse,
    List.takeWhile_append_dropWhile]

/-! ## Counts -/

/-- `parseCount` reads a text as a number exactly if it is a count of that number. -/
theorem parseCount_eq_ok_iff (text : String) (n : Nat) : parseCount text = .ok n ↔ IsCount text n := by
  constructor
  · intro h
    obtain ⟨front, back, htext, hfront, hback⟩ := exists_blanks_trimBlanks text.toList
    unfold parseCount at h
    -- The cases of `parseCount`: nothing, a sign alone, a sign in front, or digits only
    generalize trimBlanks text.toList = core at h htext
    split at h
    · exact nomatch h
    · exact nomatch h
    · rename_i digits hsign
      obtain ⟨hdigits, hvalue, hlt⟩ := (countFrom_eq_ok_iff (by decide) _).mp h
      refine ⟨front, ['+'], digits, back, htext, hfront, hback, .inr rfl, ?_, hdigits, hvalue, hlt⟩
      rintro rfl
      exact hsign rfl
    · rename_i hempty _ _
      obtain ⟨hdigits, hvalue, hlt⟩ := (countFrom_eq_ok_iff (by decide) _).mp h
      exact ⟨front, [], core, back, htext, hfront, hback, .inl rfl, hempty, hdigits, hvalue, hlt⟩
  · rintro ⟨front, sign, digits, back, htext, hfront, hback, hsign, hne, hdigits, hvalue, hlt⟩
    have hread : countFrom 0 digits = .ok n :=
      (countFrom_eq_ok_iff (by decide) digits).mpr ⟨hdigits, hvalue, hlt⟩
    have hcore : ∀ c ∈ sign ++ digits, isBlank c = false := by
      intro c hc
      rcases List.mem_append.mp hc with hc | hc
      · rcases hsign with rfl | rfl
        · exact (List.not_mem_nil hc).elim
        · rw [List.mem_singleton.mp hc]
          decide
      · exact isBlank_of_isDigit (hdigits c hc)
    unfold parseCount
    rw [htext, trimBlanks_of_blanks hfront hback hcore (List.append_ne_nil_of_right_ne_nil sign hne)]
    obtain ⟨c, digits, rfl⟩ := List.exists_cons_of_ne_nil hne
    rcases hsign with rfl | rfl
    · -- A digit is not a sign
      have hplus : c ≠ '+' := by
        rintro rfl
        exact absurd (hdigits '+' List.mem_cons_self) (by decide)
      simp only [List.nil_append]
      split
      · rename_i heq
        exact nomatch heq
      · rename_i heq
        exact absurd (List.cons.inj heq).1 hplus
      · rename_i heq
        exact absurd (List.cons.inj heq).1 hplus
      · exact hread
    · exact hread

/-- `IsCount` makes a text a count of one number at most. -/
theorem IsCount.unique {text : String} {n m : Nat} (hn : IsCount text n) (hm : IsCount text m) :
    n = m :=
  Except.ok.inj (((parseCount_eq_ok_iff text n).mpr hn).symm.trans ((parseCount_eq_ok_iff text m).mpr hm))

namespace Environment

/-- What a variable that stands for a number is set to: a number if it holds a count of that by
    `IsCount`, and nothing if it is not set to a text. -/
def Sets (e : Environment) (name : String) : Option Nat → Prop
  | none => e.text? name = none
  | some n => ∃ text, e.text? name = some text ∧ IsCount text n

variable {e : Environment} {name : String}

/-- `Environment.count?` reads what `Environment.Sets` says that a variable is set to. -/
theorem count?_eq_ok_iff (value : Option Nat) : e.count? name = .ok value ↔ e.Sets name value := by
  unfold count?
  -- By whether the variable is set, and whether a number is asked for
  cases htext : e.text? name with
  | none =>
    cases value with
    | none => simp only [Sets, htext]
    | some n => simp only [Sets, htext, reduceCtorEq, false_and, exists_false, Except.ok.injEq]
  | some text =>
    cases value with
    | none =>
      simp only [Sets, htext, reduceCtorEq, iff_false]
      split <;> nofun
    | some n =>
      simp only [Sets, htext, Option.some.injEq, exists_eq_left', ← parseCount_eq_ok_iff]
      split
      · rename_i hread
        rw [hread]
        simp only [Except.ok.injEq, Option.some.injEq]
      · rename_i hread
        rw [hread]
        simp only [reduceCtorEq]

/-- `Environment.count?` fails only for a variable that is set to a text that is no count. -/
theorem count?_error {v : InvalidValue} (h : e.count? name = .error v) :
    ∃ text why, e.text? name = some text ∧ (∀ n, ¬IsCount text n) ∧ parseCount text = .error why ∧
      v = .notACount name text why := by
  unfold count? at h
  split at h
  · exact nomatch h
  · rename_i text htext
    split at h
    · exact nomatch h
    · rename_i why hwhy
      cases h
      refine ⟨text, why, htext, fun n hcount => ?_, hwhy, rfl⟩
      rw [(parseCount_eq_ok_iff text n).mpr hcount] at hwhy
      exact nomatch hwhy

/-- `Environment.Sets` makes the text of a variable a count. -/
theorem Sets.isCount {value : Option Nat} {text : String} (h : e.Sets name value)
    (htext : e.text? name = some text) : ∃ n, value = some n ∧ IsCount text n := by
  cases value with
  | none =>
    rw [show e.text? name = none from h] at htext
    exact nomatch htext
  | some n =>
    obtain ⟨other, hother, hcount⟩ := h
    rw [htext] at hother
    cases hother
    exact ⟨n, rfl, hcount⟩

/-- `Environment.Sets` makes a variable stand for one number at most. -/
theorem Sets.unique {value other : Option Nat} (h : e.Sets name value) (h' : e.Sets name other) :
    value = other :=
  Except.ok.inj (((count?_eq_ok_iff value).mpr h).symm.trans ((count?_eq_ok_iff other).mpr h'))

end Environment

end StackTrace
