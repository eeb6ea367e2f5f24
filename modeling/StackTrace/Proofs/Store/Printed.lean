import StackTrace.Proofs.Store.Shown

/-!
# The lines of a printed throwable

A throwable is printed line by line: its header and the frames of its trace, then in the same way each of
its causes.  The first condition that has no trace ends the text, with a marker in place of its frames; a
trace without frames does not.

`PrintedLine` is a line as what it stands for.  The lines of a throwable are listed without the loop over
the causes: those of its own, those of the causes up to the last that is printed, and what comes at the
end.

## Key results

- `Throwable.printChain_lines`: printing as a list of lines
- `Throwable.printChain_untraced`: what comes behind a condition without a trace does not matter
- `Throwable.printed_of_chain`: the text of any throwable
-/

namespace StackTrace

/-- A line of a printed throwable. -/
inductive PrintedLine where
  /-- The first line, which announces the throwable. -/
  | header (c : Condition)
  | cause (c : Condition)
  | frame (e : StackTraceElement)
  /-- The marker in place of frames. -/
  | noTrace

namespace PrintedLine

/-- The text of a line, with its end. -/
def text (p : Program) : PrintedLine → String
  | header c => c.text p ++ "\n"
  | cause c => "Caused by: " ++ c.text p ++ "\n"
  | frame e => "\tat " ++ e.text ++ "\n"
  | noTrace => "\t<<no stack trace available>>\n"

/-- The text of lines in order, by `PrintedLine.text`. -/
def joined (p : Program) (lines : List PrintedLine) : String := String.join (lines.map (text p))

variable {p : Program}

@[simp] theorem joined_nil : joined p [] = "" := rfl

@[simp] theorem joined_cons (line : PrintedLine) (lines : List PrintedLine) :
    joined p (line :: lines) = line.text p ++ joined p lines := by
  rw [joined, List.map_cons, String.join_cons, joined]

/-- `PrintedLine.joined` of lines in two parts. -/
@[simp] theorem joined_append (lines more : List PrintedLine) :
    joined p (lines ++ more) = joined p lines ++ joined p more := by
  rw [joined, List.map_append, String.join_append, joined, joined]

/-- No cause reads like `PrintedLine.noTrace`, whatever the names in it. -/
private theorem text_cause_ne (c : Condition) : (cause c).text p ≠ noTrace.text p := by
  intro h
  have hchars := congrArg String.toList h
  simp [text] at hchars

/-- No frame reads like `PrintedLine.noTrace`, whatever the names in it. -/
private theorem text_frame_ne (e : StackTraceElement) : (frame e).text p ≠ noTrace.text p := by
  intro h
  have hchars := congrArg String.toList h
  simp [text] at hchars

end PrintedLine

namespace Condition

/-- The lines for `Condition.elements`; none without a trace. -/
def frameLines (p : Program) (c : Condition) : List PrintedLine := (c.elements p).map .frame

/-- The lines of a condition that caused another. -/
def causeLines (p : Program) (c : Condition) : List PrintedLine := .cause c :: c.frameLines p

/-- What comes after the frames if the condition is the last that is printed: the marker, unless it has a
    trace. -/
def ending (c : Condition) : List PrintedLine := if c.trace.isNone then [.noTrace] else []

variable {p : Program} {c : Condition} {s : Store}

/-- `Condition.frameLines` are the lines that the elements are printed as. -/
private theorem joined_frameLines (p : Program) (c : Condition) :
    PrintedLine.joined p (c.frameLines p) = String.join ((c.elements p).map Throwable.frameLine) := by
  rw [PrintedLine.joined, frameLines, List.map_map]
  rfl

/-- `Condition.frameLines` are none without a trace. -/
private theorem frameLines_of_untraced (hc : c.trace = none) : c.frameLines p = [] := by
  rw [frameLines, elements, frames, hc]
  rfl

/-- `Condition.ending` without a trace is the marker. -/
private theorem ending_of_untraced (hc : c.trace = none) : c.ending = [.noTrace] := by
  rw [ending, hc, Option.isNone_none, if_pos rfl]

/-- `Condition.ending` with a trace is empty. -/
private theorem ending_of_traced (hc : c.trace = some s) : c.ending = [] := by
  rw [ending, hc, Option.isNone_some, if_neg Bool.false_ne_true]

end Condition

namespace Throwable

variable {p : Program} {c last : Condition} {s : Store}

/-- `printChain` ends at a condition that has no trace. -/
private theorem printChain_of_untraced (hc : c.trace = none) (lead : String) (causes : List Condition) :
    printChain p lead (c :: causes) = lead ++ c.text p ++ "\n" ++ noTraceLine := by
  simp only [printChain, hc]

/-- For `printChain`, what comes behind a condition without a trace does not matter. -/
theorem printChain_untraced {before : List Condition} (hbefore : ∀ d ∈ before, d.trace.isSome)
    (hlast : last.trace = none) (lead : String) (causes others : List Condition) :
    printChain p lead (before ++ last :: causes) = printChain p lead (before ++ last :: others) := by
  rw [printChain_append hbefore, printChain_append hbefore, printChain_of_untraced hlast,
    printChain_of_untraced hlast]

/-- What `printChain` prints of a condition and its causes, up to the first that has no trace, or else
    to the end: behind the header come the frames, then the lines of the causes up to there. -/
theorem printChain_lines (p : Program) (lead : String) (c : Condition) (causes : List Condition) :
    ∃ k last, (c :: causes)[k]? = some last ∧ (∀ d ∈ (c :: causes).take k, d.trace.isSome) ∧
      (last.trace.isSome → k = causes.length) ∧
      printChain p lead (c :: causes) = lead ++ c.text p ++ "\n" ++ PrintedLine.joined p
        (c.frameLines p ++ (causes.take k).flatMap (Condition.causeLines p) ++ last.ending) := by
  -- Induction on the causes; the condition and what stands before it vary
  induction causes generalizing lead c with
  | nil =>
    refine ⟨0, c, rfl, fun _ hd => (List.not_mem_nil hd).elim, fun _ => rfl, ?_⟩
    cases hc : c.trace with
    | none =>
      rw [printChain_of_untraced hc, Condition.frameLines_of_untraced hc,
        Condition.ending_of_untraced hc]
      rfl
    | some s =>
      rw [printChain_of_traced hc, Condition.ending_of_traced hc, List.take_nil, List.flatMap_nil,
        List.append_nil, List.append_nil, Condition.joined_frameLines]
      exact String.append_empty
  | cons d causes ih =>
    cases hc : c.trace with
    | none =>
      -- Without a trace printing ends here, whatever the causes are
      refine ⟨0, c, rfl, fun _ hd => (List.not_mem_nil hd).elim, fun h => ?_, ?_⟩
      · rw [hc] at h
        cases h
      · rw [printChain_of_untraced hc, Condition.frameLines_of_untraced hc,
          Condition.ending_of_untraced hc]
        rfl
    | some s =>
      -- The next cause is printed in the same way, one place further on
      obtain ⟨k, last, hlast, hbefore, hend, hlines⟩ := ih "Caused by: " d
      refine ⟨k + 1, last, hlast, ?_, fun h => congrArg (· + 1) (hend h), ?_⟩
      · rw [List.take_succ_cons, List.forall_mem_cons, hc]
        exact ⟨rfl, hbefore⟩
      · rw [printChain_of_traced hc, hlines, List.take_succ_cons, List.flatMap_cons,
          Condition.causeLines, ← Condition.joined_frameLines]
        simp only [PrintedLine.joined_append, PrintedLine.joined_cons, PrintedLine.text,
          List.cons_append, String.append_assoc]

/-- The text by `Throwable.printed`, for a chain of causes of any length.  It ends with the first
    condition that has no trace, or else with the last one.  Up to there it is the header of the
    throwable and the elements of its trace, a line for each and in order, then for each cause its
    header behind the words that announce a cause, and the elements of its trace; at the end, if the
    last one has no trace, comes the marker.  The marker is nowhere before that, and but for the first
    header, which may be any text, no line reads like it.  What caused a condition without a trace is
    not printed. -/
theorem printed_of_chain (p : Program) (t : Throwable) :
    ∃ k last, t.chain[k]? = some last ∧ (∀ c ∈ t.chain.take k, c.trace.isSome) ∧
      (last.trace.isSome → k + 1 = t.chain.length) ∧
      let front := PrintedLine.header t.head :: (t.elements p).map .frame ++
        (t.causes.take k).flatMap fun c => .cause c :: (c.elements p).map .frame
      let ending : List PrintedLine := if last.trace.isNone then [.noTrace] else []
      t.printed p = String.join ((front ++ ending).map (PrintedLine.text p)) ∧
      PrintedLine.noTrace ∉ front ∧
      (∀ line ∈ front.tail, line.text p ≠ PrintedLine.noTrace.text p) ∧
      (last.trace = none → ∀ others : List Condition,
        Throwable.printed p ⟨t.head, t.causes.take k ++ others⟩ = t.printed p) := by
  obtain ⟨k, last, hlast, hbefore, hend, hlines⟩ := printChain_lines p "" t.head t.causes
  change ∀ c ∈ t.chain.take k, c.trace.isSome at hbefore
  refine ⟨k, last, hlast, hbefore, fun h => congrArg (· + 1) (hend h), ?_⟩
  intro front ending
  -- Behind the header come frames and causes only
  have htail : ∀ line ∈ front.tail, (∃ e, line = .frame e) ∨ ∃ c, line = .cause c := by
    intro line hline
    simp only [front, List.cons_append, List.tail_cons, List.mem_append, List.mem_map,
      List.mem_flatMap, List.mem_cons] at hline
    rcases hline with ⟨e, -, rfl⟩ | ⟨c, -, rfl | ⟨e, -, rfl⟩⟩
    · exact .inl ⟨e, rfl⟩
    · exact .inr ⟨c, rfl⟩
    · exact .inl ⟨e, rfl⟩
  -- The text, the place of the marker, the lines that do not read like it, and what does not matter
  refine ⟨?_, ?_, ?_, fun huntraced others => ?_⟩
  · have hheader : t.head.text p ++ "\n" = (PrintedLine.header t.head).text p := rfl
    rw [printed, chain, hlines, String.empty_append, hheader, ← PrintedLine.joined_cons]
    rfl
  · intro hmem
    rcases List.mem_cons.mp hmem with hheader | hmem
    · cases hheader
    · rcases htail _ hmem with ⟨e, he⟩ | ⟨c, hc⟩
      · cases he
      · cases hc
  · intro line hline
    rcases htail line hline with ⟨e, rfl⟩ | ⟨c, rfl⟩
    · exact PrintedLine.text_frame_ne e
    · exact PrintedLine.text_cause_ne c
  · -- The chain up to the condition without a trace is the same
    have hfront : t.head :: t.causes.take k = t.chain.take k ++ [last] := by
      rw [← List.take_succ_cons, List.take_add_one]
      exact congrArg (t.chain.take k ++ Option.toList ·) hlast
    have hchain : t.chain = t.chain.take k ++ last :: t.chain.drop (k + 1) := by
      rw [List.append_cons, ← hfront, ← List.take_succ_cons]
      exact (List.take_append_drop (k + 1) t.chain).symm
    have hothers : Throwable.chain ⟨t.head, t.causes.take k ++ others⟩ =
        t.chain.take k ++ last :: others := by
      rw [List.append_cons, ← hfront]
      rfl
    rw [printed, printed, hothers, printChain_untraced hbefore huntraced "" others
      (t.chain.drop (k + 1)), ← hchain]

end Throwable

end StackTrace
