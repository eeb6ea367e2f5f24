import Mathlib.Data.List.Induction
import StackTrace.Program.Method

/-!
# Looking up source lines

A line table lists where the code of source lines begins, in any order, and may list one index more than
once.  The entry for an index is the first one that starts there.  If none does, it is one that starts
before the index and as near to it as any, and of several such entries the one listed last.

The search for the nearest entry keeps the best one so far.  Without one, the start of the code serves as
what the next is compared with, which every entry passes.

## Key results

- `LineTable.StartsAt`, `LineTable.NearestBefore`: the entry for an index, without the search
- `LineTable.find?_eq_some_iff`, `LineTable.foldl_nearestBefore_cases`: what is found in a table
- `Method.line_of_table`: the line at an index of the code
-/

namespace StackTrace

namespace LineTable

/-- The first entry of a table that starts at index `b`. -/
def StartsAt (lines : List LineEntry) (b : Nat) (e : LineEntry) : Prop :=
  ∃ before after, lines = before ++ e :: after ∧ e.bci = b ∧ ∀ d ∈ before, d.bci ≠ b

/-- The last listed of those entries of a table that start before index `b`, and no farther from it than
    any other that does. -/
def NearestBefore (lines : List LineEntry) (b : Nat) (e : LineEntry) : Prop :=
  ∃ before after, lines = before ++ e :: after ∧ e.bci < b ∧
    (∀ d ∈ before, d.bci < b → d.bci ≤ e.bci) ∧ ∀ d ∈ after, d.bci < b → d.bci < e.bci

variable {lines : List LineEntry} {b : Nat} {e d : LineEntry}

/-- An entry that `StartsAt` an index is one of the table. -/
private theorem StartsAt.mem (h : StartsAt lines b e) : e ∈ lines := by
  obtain ⟨before, after, rfl, -, -⟩ := h
  exact List.mem_append_right before List.mem_cons_self

/-- An entry that is `NearestBefore` an index is one of the table. -/
private theorem NearestBefore.mem (h : NearestBefore lines b e) : e ∈ lines := by
  obtain ⟨before, after, rfl, -, -, -⟩ := h
  exact List.mem_append_right before List.mem_cons_self

/-- An entry that `StartsAt` an index has that index. -/
private theorem StartsAt.bci_eq (h : StartsAt lines b e) : e.bci = b := by
  obtain ⟨_, _, -, hstart, -⟩ := h
  exact hstart

/-- `NearestBefore` starts before the index. -/
private theorem NearestBefore.bci_lt (h : NearestBefore lines b e) : e.bci < b := by
  obtain ⟨_, _, -, hlt, -, -⟩ := h
  exact hlt

/-- `NearestBefore` leaves no entry nearer, be it listed before or after. -/
private theorem NearestBefore.le (h : NearestBefore lines b e) (hd : d ∈ lines) (hlt : d.bci < b) :
    d.bci ≤ e.bci := by
  obtain ⟨before, after, rfl, -, hbefore, hafter⟩ := h
  rcases List.mem_append.mp hd with hd | hd
  · exact hbefore d hd hlt
  · rcases List.mem_cons.mp hd with rfl | hd
    · exact Nat.le_refl _
    · exact Nat.le_of_lt (hafter d hd hlt)

/-- `List.find?` by the index finds the first entry that starts there. -/
theorem find?_eq_some_iff : lines.find? (·.bci == b) = some e ↔ StartsAt lines b e := by
  rw [List.find?_eq_some_iff_append]
  constructor
  · rintro ⟨hstart, before, after, rfl, hbefore⟩
    refine ⟨before, after, rfl, beq_iff_eq.mp hstart, fun d hd => ?_⟩
    simpa using hbefore d hd
  · rintro ⟨before, after, rfl, hstart, hbefore⟩
    refine ⟨beq_iff_eq.mpr hstart, before, after, rfl, fun d hd => ?_⟩
    simpa using hbefore d hd

/-! ## The nearest entry -/

/-- `NearestBefore` does not count a further entry that starts at the index or behind it. -/
private theorem NearestBefore.append_of_ge (h : NearestBefore lines b e) (hge : b ≤ d.bci) :
    NearestBefore (lines ++ [d]) b e := by
  obtain ⟨before, after, rfl, hlt, hbefore, hafter⟩ := h
  refine ⟨before, after ++ [d], by rw [List.append_assoc, List.cons_append], hlt, hbefore, ?_⟩
  intro x hx hxlt
  rcases List.mem_append.mp hx with hx | hx
  · exact hafter x hx hxlt
  · rw [List.mem_singleton.mp hx] at hxlt
    omega

/-- `NearestBefore` does not count a further entry that is farther away, either. -/
private theorem NearestBefore.append_of_lt (h : NearestBefore lines b e) (hfar : d.bci < e.bci) :
    NearestBefore (lines ++ [d]) b e := by
  obtain ⟨before, after, rfl, hlt, hbefore, hafter⟩ := h
  refine ⟨before, after ++ [d], by rw [List.append_assoc, List.cons_append], hlt, hbefore, ?_⟩
  intro x hx hxlt
  rcases List.mem_append.mp hx with hx | hx
  · exact hafter x hx hxlt
  · rw [List.mem_singleton.mp hx]
    exact hfar

/-- A further entry that none is nearer than is `NearestBefore` the index. -/
private theorem nearestBefore_append_self (hlt : d.bci < b) (hle : ∀ x ∈ lines, x.bci < b → x.bci ≤ d.bci) :
    NearestBefore (lines ++ [d]) b d :=
  ⟨lines, [], rfl, hlt, hle, fun _ hx => (List.not_mem_nil hx).elim⟩

/-- `Method.nearestBefore` finds the nearest entry when the table is gone through. -/
theorem foldl_nearestBefore_cases (lines : List LineEntry) (b : Nat) :
    (lines.foldl (Method.nearestBefore b) none = none ∧ ∀ d ∈ lines, b ≤ d.bci) ∨
      ∃ e, lines.foldl (Method.nearestBefore b) none = some e ∧ NearestBefore lines b e := by
  -- Induction on the table from its end, where the last entry is compared with the best so far
  induction lines using List.reverseRecOn with
  | nil => exact .inl ⟨rfl, fun _ hd => (List.not_mem_nil hd).elim⟩
  | append_singleton lines d ih =>
    rw [List.foldl_append, List.foldl_cons, List.foldl_nil, Method.nearestBefore]
    rcases ih with ⟨hnone, hbehind⟩ | ⟨e, hbest, hnearest⟩
    · rw [hnone]
      by_cases hlt : d.bci < b
      · -- The start of the code is not behind any entry
        rw [if_pos (by simp [hlt])]
        refine .inr ⟨d, rfl, nearestBefore_append_self hlt fun x hx hxlt => ?_⟩
        exact absurd (hbehind x hx) (Nat.not_le_of_lt hxlt)
      · rw [if_neg (by simp [hlt])]
        refine .inl ⟨rfl, fun x hx => ?_⟩
        rcases List.mem_append.mp hx with hx | hx
        · exact hbehind x hx
        · rw [List.mem_singleton.mp hx]
          exact Nat.le_of_not_lt hlt
    · rw [hbest]
      by_cases hlt : d.bci < b
      · by_cases hle : e.bci ≤ d.bci
        · rw [if_pos (by simp [hlt, hle])]
          refine .inr ⟨d, rfl, nearestBefore_append_self hlt fun x hx hxlt => ?_⟩
          exact Nat.le_trans (hnearest.le hx hxlt) hle
        · rw [if_neg (by simp [hle])]
          exact .inr ⟨e, rfl, hnearest.append_of_lt (Nat.lt_of_not_le hle)⟩
      · rw [if_neg (by simp [hlt])]
        exact .inr ⟨e, rfl, hnearest.append_of_ge (Nat.le_of_not_lt hlt)⟩

end LineTable

namespace Method

variable {m : Method} {bci : Int} {b : Nat} {e : LineEntry}

/-! ## The line at an index -/

/-- `Method.lineAt` is unknown outside of the code. -/
private theorem lineAt_of_ge (hb : bci.toNat = b) (hge : m.codeSize ≤ b) : m.lineAt bci = unknownLine := by
  simp only [lineAt, hb, hge, if_true]

/-- `Method.lineAt` is that of the first entry that starts at the index. -/
private theorem lineAt_of_startsAt (hb : bci.toNat = b) (hlt : b < m.codeSize)
    (h : LineTable.StartsAt m.lines b e) : m.lineAt bci = e.line := by
  simp only [lineAt, hb, Nat.not_le_of_lt hlt, if_false, LineTable.find?_eq_some_iff.mpr h]

/-- `Method.lineAt` is that of the nearest entry before the index, if there is any, where none starts
    there. -/
private theorem lineAt_of_not_startsAt (hb : bci.toNat = b) (hlt : b < m.codeSize)
    (hnone : ∀ d ∈ m.lines, d.bci ≠ b) :
    (m.lineAt bci = unknownLine ∧ ∀ d ∈ m.lines, b ≤ d.bci) ∨
      ∃ e, LineTable.NearestBefore m.lines b e ∧ m.lineAt bci = e.line := by
  have hfind : m.lines.find? (·.bci == b) = none := by
    simpa using hnone
  simp only [lineAt, hb, Nat.not_le_of_lt hlt, if_false, hfind]
  rcases LineTable.foldl_nearestBefore_cases m.lines b with ⟨hbest, hbehind⟩ | ⟨e, hbest, hnearest⟩
  · exact .inl ⟨by rw [hbest], hbehind⟩
  · exact .inr ⟨e, hnearest, by rw [hbest]⟩

/-- `Method.lineAt` inside the code is the line of the entry for the index, or there is none and it is
    not known. -/
theorem lineAt_cases (hb : bci.toNat = b) (hlt : b < m.codeSize) :
    (∃ e, LineTable.StartsAt m.lines b e ∧ m.lineAt bci = e.line) ∨
      (∀ d ∈ m.lines, d.bci ≠ b) ∧
        ((∃ e, LineTable.NearestBefore m.lines b e ∧ m.lineAt bci = e.line) ∨
          (∀ d ∈ m.lines, b < d.bci) ∧ m.lineAt bci = unknownLine) := by
  cases hfind : m.lines.find? (·.bci == b) with
  | some e =>
    have hstart := LineTable.find?_eq_some_iff.mp hfind
    exact .inl ⟨e, hstart, lineAt_of_startsAt hb hlt hstart⟩
  | none =>
    have hnone : ∀ d ∈ m.lines, d.bci ≠ b := by
      simpa using hfind
    refine .inr ⟨hnone, ?_⟩
    rcases lineAt_of_not_startsAt hb hlt hnone with ⟨hline, hbehind⟩ | hnearest
    · exact .inr ⟨fun d hd => Nat.lt_of_le_of_ne (hbehind d hd) (hnone d hd).symm, hline⟩
    · exact .inl hnearest

/-- `Method.lineAt` that is known is the line of some entry. -/
private theorem lineAt_eq_unknownLine_or (m : Method) (bci : Int) :
    m.lineAt bci = unknownLine ∨ ∃ e ∈ m.lines, m.lineAt bci = e.line := by
  by_cases hlt : bci.toNat < m.codeSize
  · rcases lineAt_cases rfl hlt with ⟨e, hstart, hline⟩ | ⟨-, ⟨e, hnearest, hline⟩ | ⟨-, hline⟩⟩
    · exact .inr ⟨e, hstart.mem, hline⟩
    · exact .inr ⟨e, hnearest.mem, hline⟩
    · exact .inl hline
  · exact .inl (lineAt_of_ge rfl (Nat.le_of_not_lt hlt))

/-- `Method.lineAt` inside the code is unknown exactly if the table starts behind the index. -/
private theorem lineAt_eq_unknownLine_iff (hb : bci.toNat = b) (hlt : b < m.codeSize) :
    m.lineAt bci = unknownLine ↔ ∀ d ∈ m.lines, b < d.bci := by
  -- The line of an entry is not negative
  have hknown : ∀ e : LineEntry, m.lineAt bci = e.line → m.lineAt bci ≠ unknownLine := by
    intro e hline hunknown
    rw [hline, unknownLine] at hunknown
    omega
  rcases lineAt_cases hb hlt with
    ⟨e, hstart, hline⟩ | ⟨-, ⟨e, hnearest, hline⟩ | ⟨hbehind, hline⟩⟩
  · refine ⟨fun h => absurd h (hknown e hline), fun hbehind => ?_⟩
    have hbci := hbehind e hstart.mem
    rw [hstart.bci_eq] at hbci
    exact absurd hbci (Nat.lt_irrefl b)
  · refine ⟨fun h => absurd h (hknown e hline), fun hbehind => ?_⟩
    have hbci := hbehind e hnearest.mem
    exact absurd hnearest.bci_lt (Nat.not_lt_of_gt hbci)
  · exact ⟨fun _ => hbehind, fun _ => hline⟩

/-- `Method.lineAt` is never the line of native code. -/
private theorem lineAt_ne_nativeLine (m : Method) (bci : Int) : m.lineAt bci ≠ nativeLine := by
  rcases lineAt_eq_unknownLine_or m bci with hline | ⟨e, -, hline⟩
  · rw [hline]
    decide
  · rw [hline, nativeLine]
    omega

/-- `Method.lineAt` at any index, for a line table in any order and with any repetitions.  A negative
    index counts as the start of the code.  The line is unknown outside of the code and without a table.
    Otherwise it is that of the first entry which starts at the index (`StartsAt`), if there is one, and
    if there is none that of the last of the nearest entries before the index (`NearestBefore`); it is
    unknown exactly if there is no entry up to the index.  Lines are words of 16 bits, so the result is
    never taken for the line of a native method, which only native methods report. -/
theorem line_of_table (m : Method) (bci : Int) :
    let b := (max bci 0).toNat
    (m.codeSize ≤ b ∨ m.lines = [] → m.lineAt bci = -1) ∧
    (b < m.codeSize →
      ((∃ d ∈ m.lines, d.bci = b) →
        ∃ e, LineTable.StartsAt m.lines b e ∧ m.lineAt bci = e.line) ∧
      ((∀ d ∈ m.lines, d.bci ≠ b) → (∃ d ∈ m.lines, d.bci < b) →
        ∃ e, LineTable.NearestBefore m.lines b e ∧ m.lineAt bci = e.line) ∧
      (m.lineAt bci = -1 ↔ ∀ d ∈ m.lines, b < d.bci)) ∧
    ((∀ d ∈ m.lines, d.line ≤ 65535) → -1 ≤ m.lineAt bci ∧ m.lineAt bci ≤ 65535) ∧
    m.lineAt bci ≠ nativeLine ∧ (m.lineNumber bci = nativeLine ↔ m.flags.native = true) := by
  intro b
  have hb : bci.toNat = b := by omega
  refine ⟨?_, fun hlt => ⟨?_, ?_, lineAt_eq_unknownLine_iff hb hlt⟩, ?_, m.lineAt_ne_nativeLine bci, ?_⟩
  -- Outside of the code, and without a table
  · rintro (hge | hempty)
    · exact lineAt_of_ge hb hge
    · rcases m.lineAt_eq_unknownLine_or bci with hline | ⟨e, he, -⟩
      · exact hline
      · rw [hempty] at he
        exact (List.not_mem_nil he).elim
  -- An entry that starts at the index, and none
  · rintro ⟨d, hd, hstart⟩
    rcases lineAt_cases hb hlt with hfound | ⟨hnone, -⟩
    · exact hfound
    · exact absurd hstart (hnone d hd)
  · rintro hnone ⟨d, hd, hbefore⟩
    rcases lineAt_cases hb hlt with ⟨e, hstart, -⟩ | ⟨-, hnearest | ⟨hbehind, -⟩⟩
    · exact absurd hstart.bci_eq (hnone e hstart.mem)
    · exact hnearest
    · exact absurd (hbehind d hd) (Nat.not_lt_of_gt hbefore)
  · intro hwords
    rcases m.lineAt_eq_unknownLine_or bci with hline | ⟨e, he, hline⟩
    · rw [hline]
      decide
    · have hword := hwords e he
      rw [hline]
      omega
  -- Native code has a line of its own
  · rw [lineNumber]
    cases m.flags.native with
    | true => exact ⟨fun _ => rfl, fun _ => rfl⟩
    | false => exact ⟨fun h => absurd h (m.lineAt_ne_nativeLine bci), nofun⟩

/-- `line_of_table` for a table that is not in order, lists some indices twice and goes on behind the
    end of the code. -/
theorem line_of_table_unordered :
    let m : Method := ⟨⟨0⟩, 0, 0, 0, ⟨"run", 0⟩, ⟨"()V", 1⟩, {}, 12,
      [⟨8, 65535⟩, ⟨2, 20⟩, ⟨0, 10⟩, ⟨2, 21⟩, ⟨70, 99⟩, ⟨4, 30⟩, ⟨4, 31⟩]⟩
    m.lineAt 12 = -1 ∧ (∀ d ∈ m.lines, d.line ≤ 65535) ∧ m.lineAt 11 ≤ 65535 ∧
    (∃ e, LineTable.StartsAt m.lines 2 e ∧ m.lineAt 2 = e.line) ∧ m.lineAt 2 = 20 ∧
    (∃ e, LineTable.NearestBefore m.lines 3 e ∧ m.lineAt 3 = e.line) ∧ m.lineAt 3 = 21 ∧
    (∃ e, LineTable.StartsAt m.lines 0 e ∧ m.lineAt (-1) = e.line) ∧ m.lineAt (-1) = 10 := by
  intro m
  have hwords : ∀ d ∈ m.lines, d.line ≤ 65535 := by decide
  obtain ⟨houtside, -⟩ := line_of_table m 12
  obtain ⟨-, -, hrange, -⟩ := line_of_table m 11
  obtain ⟨-, hsecond, -⟩ := line_of_table m 2
  obtain ⟨-, hthird, -⟩ := line_of_table m 3
  obtain ⟨-, hentry, -⟩ := line_of_table m (-1)
  refine ⟨houtside (.inl (by decide)), hwords, (hrange hwords).2, ?_, rfl, ?_, rfl, ?_, rfl⟩
  · exact (hsecond (by decide)).1 ⟨⟨2, 20⟩, by decide, rfl⟩
  · exact (hthird (by decide)).2.1 (by decide) ⟨⟨2, 20⟩, by decide, by decide⟩
  · exact (hentry (by decide)).1 ⟨⟨0, 10⟩, by decide, rfl⟩

end Method

end StackTrace
