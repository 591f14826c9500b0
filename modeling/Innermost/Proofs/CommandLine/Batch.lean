import Innermost.CommandLine.Command
import Innermost.Proofs.CommandLine.Lines
import Innermost.Proofs.Tracing.Regions

/-!
Lines answered in a row do not know of each other.

* `foldl_answering`: a batch goes from line to line, answers every one of them, and remembers
  whether all of them succeeded.
* `batch_line`: a line by itself is a batch of one line, so what is printed for it is what it
  prints alone. A line that fails prints nothing and reports one error
  (`answer_of_trace_error`).
* `cause_ne_unexpectedEnd_of_trace`: since blank lines are left out, no failure tells that a
  line ended before there was an expression.
* `command_lineByLine` puts this together for the command.
-/

namespace Innermost

/-! ### Outputs in a row -/

namespace Output

@[simp] lemma text_append (a b : Output) : (a ++ b).text = a.text ++ b.text := rfl

@[simp] lemma errors_append (a b : Output) : (a ++ b).errors = a.errors ++ b.errors := rfl

lemma ext_iff {a b : Output} : a = b ↔ a.text = b.text ∧ a.errors = b.errors := by
  cases a
  cases b
  simp

@[simp] lemma append_empty (a : Output) : a ++ {} = a := ext_iff.mpr (by simp)

@[simp] lemma empty_append (a : Output) : {} ++ a = a := ext_iff.mpr (by simp)

lemma append_assoc (a b c : Output) : a ++ b ++ c = a ++ (b ++ c) :=
  ext_iff.mpr (by simp [String.append_assoc])

@[simp] lemma concat_nil : concat [] = {} := ext_iff.mpr ⟨String.join_nil, rfl⟩

@[simp] lemma concat_cons (a : Output) (outputs : List Output) :
    concat (a :: outputs) = a ++ concat outputs :=
  ext_iff.mpr ⟨String.join_cons, List.flatMap_cons⟩

lemma errors_concat_eq_nil_iff {outputs : List Output} :
    (concat outputs).errors = [] ↔ ∀ output ∈ outputs, output.errors = [] :=
  List.flatMap_eq_nil_iff

end Output

/-! ### From line to line -/

/-- The lines that are answered: those that are not blank. -/
def askedLines (text : String) : List String := (lines text).filter fun line => !isBlankLine line

lemma mem_askedLines {text line : String} (h : line ∈ askedLines text) :
    '\n' ∉ line.toList ∧ isBlankLine line = false := by
  obtain ⟨hline, hblank⟩ := List.mem_filter.mp h
  exact ⟨newline_not_mem_of_mem_lines hline, by simpa using hblank⟩

/-- What a command has come to when one more line is answered. -/
def Outcome.answering (o : Options) (before : Outcome) (line : String) : Outcome :=
  let output := answer o line
  ⟨if output.errors.isEmpty then before.status else 1, before.output ++ output⟩

/-- However many lines have failed, the next one is answered, and a failure is not
forgotten. -/
lemma foldl_answering (o : Options) (asked : List String) (before : Outcome) :
    asked.foldl (Outcome.answering o) before =
      let output := Output.concat (asked.map (answer o))
      ⟨if output.errors.isEmpty then before.status else 1, before.output ++ output⟩ := by
  induction asked generalizing before with
  | nil => simp
  | cons line asked ih =>
      rw [List.foldl_cons, ih, List.map_cons, Output.concat_cons]
      refine congrArg₂ Outcome.mk ?_ (Output.append_assoc _ _ _)
      by_cases hline : (answer o line).errors = [] <;> simp [Outcome.answering, hline]

/-- A line that is not blank is answered alone as it is among others. -/
lemma batch_line (o : Options) {line : String} (hline : '\n' ∉ line.toList)
    (hblank : isBlankLine line = false) :
    batch o line = ⟨if (answer o line).errors.isEmpty then 0 else 1, answer o line⟩ := by
  have hne : line ≠ "" := by
    rintro rfl
    cases hblank
  simp [batch, lines_line hline hne, hblank]

/-! ### Words -/

lemma head?_toList_append {a b : String} {c : Char} (h : a.toList.head? = some c) :
    (a ++ b).toList.head? = some c := by
  rw [String.toList_append, List.head?_append, h, Option.some_or]

/-- Nothing else is told in the words in which it is told that a text has ended; where names
are quoted in a message, its first character is another one. -/
lemma Cause.eq_unexpectedEnd {cause : Cause}
    (h : cause.wording.message = ReadFault.unexpectedEnd.wording.message) :
    cause = .read .unexpectedEnd := by
  have hne {c : Char} (hc : cause.wording.message.toList.head? = some c) : c = 'u' := by
    rw [h] at hc
    exact (Option.some.inj hc).symm
  cases cause with
  | read fault =>
      cases fault with
      | unexpectedEnd => rfl
      | _ => exact absurd h (by decide)
  | literal fault =>
      cases fault with
      | unexpectedToken expected found => exact absurd h (show "unexpected token" ≠ _ by decide)
      | unknownName name suggestions =>
          exact absurd (hne (head?_toList_append (head?_toList_append (head?_toList_append rfl))))
            (show '`' ≠ 'u' by decide)
      | invalidOperands op left right =>
          exact absurd (hne (head?_toList_append (head?_toList_append rfl)))
            (show 'c' ≠ 'u' by decide)
      | invalidOperand op operand =>
          exact absurd (hne (head?_toList_append (head?_toList_append rfl)))
            (show 'c' ≠ 'u' by decide)
      | _ => exact absurd h (by decide)
  | reduction fault =>
      cases fault with
      | notReducible => exact absurd h (by decide)
      | notAtomic result =>
          exact absurd h (show "the evaluator did not produce a single atom" ≠ _ by decide)
      | unfinished steps =>
          exact absurd h (show "the expression did not finish simplifying" ≠ _ by decide)

/-! ### One line -/

/-- What is printed for a trace. -/
def Trace.shown (o : Options) (source : String) (trace : Trace) : String :=
  if o.json then trace.toJson ++ "\n" else trace.lines o source

section Line

variable {o : Options} {line : String}

lemma answer_of_trace_ok {t : Trace} (h : trace o.context line = .ok t) :
    answer o line = .print (t.shown o line) := by
  rw [answer, showTrace, h]
  rfl

/-- Nothing is printed for a trace that fails, not even the steps before the failure. -/
lemma answer_of_trace_error {failure : Failure} (h : trace o.context line = .error failure) :
    answer o line = .report failure.diagnostic.message := by
  rw [answer, showTrace, h]
  rfl

/-- An error is reported exactly for a trace that fails. -/
lemma errors_answer_eq_nil_iff :
    (answer o line).errors = [] ↔ ¬ ∃ failure, trace o.context line = .error failure := by
  cases h : trace o.context line with
  | ok t =>
      rw [answer_of_trace_ok h]
      exact iff_of_true rfl nofun
  | error failure =>
      rw [answer_of_trace_error h]
      exact iff_of_false nofun fun hne => hne ⟨failure, rfl⟩

lemma cause_ne_unexpectedEnd_of_failsAt {text : String} {failure : Failure}
    (h : FailsAt .literal text failure) : failure.diagnostic.cause ≠ .read .unexpectedEnd := by
  cases h with
  | refused h =>
      obtain ⟨fault, hfault⟩ := exists_fault_of_evaluate (evaluate_of_literal_eq_error h)
      exact fun hcause => nomatch hfault.symm.trans hcause
  | notAtomic _ _ => nofun

/-- Whatever the trace of a line that is not blank fails of, it is not that the line has
ended before there was an expression. -/
lemma cause_ne_unexpectedEnd_of_trace (hblank : isBlankLine line = false) {ctx : Context}
    (hctx : ctx.evaluator = .literal) {failure : Failure} (h : trace ctx line = .error failure) :
    failure.diagnostic.cause ≠ .read .unexpectedEnd := by
  obtain ⟨d, hparse, rfl, -⟩ | ⟨text, -, hfails⟩ | rfl :=
    failure_traceRun (trace_eq_error_iff.mp h)
  · exact cause_ne_unexpectedEnd hblank hparse
  · exact cause_ne_unexpectedEnd_of_failsAt (hctx ▸ hfails)
  · nofun

end Line

/-! ### A whole batch -/

section Batch

variable {o : Options} {text : String}

/-- A batch is what is made of its lines from first to last. -/
lemma batch_eq_foldl (o : Options) (text : String) :
    batch o text = (askedLines text).foldl (Outcome.answering o) ⟨0, {}⟩ := by
  rw [foldl_answering]
  exact congrArg (Outcome.mk _) (Output.empty_append _).symm

lemma status_batch_le_one (o : Options) (text : String) : (batch o text).status ≤ 1 := by
  simp only [batch]
  split_ifs <;> decide

/-- A batch fails exactly if one of its lines does. -/
lemma status_batch_eq_one_iff :
    (batch o text).status = 1 ↔
      ∃ line ∈ askedLines text, ∃ failure, trace o.context line = .error failure := by
  have herrors : (batch o text).output.errors = [] ↔
      ∀ line ∈ askedLines text, ¬ ∃ failure, trace o.context line = .error failure := by
    rw [batch, Output.errors_concat_eq_nil_iff, List.forall_mem_map]
    exact forall₂_congr fun line _ => errors_answer_eq_nil_iff
  have hstatus : (batch o text).status = 1 ↔ (batch o text).output.errors ≠ [] := by
    simp only [batch]
    split_ifs with h <;> simpa using h
  rw [hstatus, ne_eq, herrors]
  push Not
  rfl

lemma unexpectedEnd_not_mem_batch (o : Options) (text : String) :
    ReadFault.unexpectedEnd.wording.message ∉ (batch o text).output.errors := by
  intro hmem
  obtain ⟨output, houtput, hmem⟩ := List.mem_flatMap.mp hmem
  obtain ⟨line, hasked, rfl⟩ := List.mem_map.mp houtput
  cases htrace : trace o.context line with
  | ok t =>
      rw [answer_of_trace_ok htrace] at hmem
      cases hmem
  | error failure =>
      rw [answer_of_trace_error htrace] at hmem
      have hcause := Cause.eq_unexpectedEnd (List.mem_singleton.mp hmem).symm
      exact cause_ne_unexpectedEnd_of_trace (mem_askedLines hasked).2 rfl htrace hcause

end Batch

/-! ### The whole command -/

/-- What a command finds offers a text to be answered line by line: it is in the file that
the arguments name or, if they name none, it is handed to the command on standard input. -/
inductive Surroundings.Offers (here : Surroundings) (o : Options) (text : String) : Prop where
  | file {path : String} (hrandom : o.random = none) (hfile : o.file = some path)
      (hcontents : here.file path = some text.toUTF8) : here.Offers o text
  | standardInput (hrandom : o.random = none) (hfile : o.file = none)
      (hterminal : here.terminal = false) (hinput : here.input = text.toUTF8) : here.Offers o text

section Command

variable {arguments : List String} {o : Options}

lemma command_of_offers (hread : Options.read arguments = .ok o) {here : Surroundings}
    {text : String} (h : here.Offers o text) : command arguments here = batch o text := by
  have hbytes : batchBytes o (some text.toUTF8) = batch o text := by
    rw [batchBytes, Option.bind_some, fromUTF8?_eq_some_iff.mpr rfl]
  rw [← hbytes]
  cases h with
  | file hrandom hfile hcontents =>
      simp only [command, hread, Options.task, hrandom, hfile, hcontents]
  | standardInput hrandom hfile hterminal hinput =>
      simp [command, hread, Options.task, hrandom, hfile, hterminal, hinput]

/-- A command that is offered one line prints nothing and fails, or prints the trace and
succeeds. -/
lemma command_line (hread : Options.read arguments = .ok o) {here : Surroundings} {line : String}
    (h : here.Offers o line) (hline : '\n' ∉ line.toList) (hblank : isBlankLine line = false) :
    (∃ failure, trace o.context line = .error failure ∧
      failure.diagnostic.cause ≠ .read .unexpectedEnd ∧
      command arguments here = ⟨1, .report failure.diagnostic.message⟩) ∨
    ∃ t, trace o.context line = .ok t ∧
      command arguments here = ⟨0, .print (t.shown o line)⟩ := by
  rw [command_of_offers hread h, batch_line o hline hblank]
  cases htrace : trace o.context line with
  | error failure =>
      rw [answer_of_trace_error htrace]
      exact .inl ⟨failure, rfl, cause_ne_unexpectedEnd_of_trace hblank rfl htrace, rfl⟩
  | ok t =>
      rw [answer_of_trace_ok htrace]
      exact .inr ⟨t, rfl, rfl⟩

/-- **Lines are answered independently, and a line that fails leaves nothing behind but its
error.** Let a command be offered a text, in a file or on standard input, and let each line
of it that is not blank be offered to the same command alone. The command

* answers the lines one after another;
* prints what the lines print alone, in their order, and reports what they report;
* succeeds if and only if the trace of every line does.

Alone, a line whose trace fails prints nothing at all and reports one error, which is never
that the text has ended before there was an expression; any other line reports none. -/
theorem command_lineByLine (hread : Options.read arguments = .ok o) {here : Surroundings}
    {text : String} (hhere : here.Offers o text) (alone : String → Surroundings)
    (halone : ∀ line ∈ askedLines text, (alone line).Offers o line) :
    let outcome := command arguments here
    outcome = (askedLines text).foldl (Outcome.answering o) ⟨0, {}⟩ ∧
      outcome.output =
        .concat ((askedLines text).map fun line => (command arguments (alone line)).output) ∧
      outcome.status ≤ 1 ∧
      (outcome.status = 1 ↔
        ∃ line ∈ askedLines text, ∃ failure, trace o.context line = .error failure) ∧
      ReadFault.unexpectedEnd.wording.message ∉ outcome.output.errors ∧
      ∀ line ∈ askedLines text,
        (∃ failure, trace o.context line = .error failure ∧
          failure.diagnostic.cause ≠ .read .unexpectedEnd ∧
          command arguments (alone line) = ⟨1, .report failure.diagnostic.message⟩) ∨
        ∃ t, trace o.context line = .ok t ∧
          command arguments (alone line) = ⟨0, .print (t.shown o line)⟩ := by
  intro outcome
  have houtcome : outcome = batch o text := command_of_offers hread hhere
  have hline {line : String} (hasked : line ∈ askedLines text) :=
    command_line hread (halone line hasked) (mem_askedLines hasked).1 (mem_askedLines hasked).2
  refine ⟨?_, ?_, ?_, ?_, ?_, fun line => hline⟩
  · rw [houtcome, batch_eq_foldl]
  · rw [houtcome]
    refine congrArg Output.concat (List.map_congr_left fun line hasked => ?_)
    rw [command_of_offers hread (halone line hasked),
      batch_line o (mem_askedLines hasked).1 (mem_askedLines hasked).2]
  · rw [houtcome]
    exact status_batch_le_one o text
  · rw [houtcome, status_batch_eq_one_iff]
  · rw [houtcome]
    exact unexpectedEnd_not_mem_batch o text

end Command

/-- Two lines with a value, two without, and a blank line that is more than spaces. -/
theorem command_lineByLine_mixed :
    let arguments := ["--marker", "none", "--max-steps=2", "sums"]
    let text := "((1 + 2) * 3)\n\u2003\n(1 / 0)\r\n)\n(2 * 3)"
    let here (text : String) : Surroundings := ⟨fun _ => some text.toUTF8, true, .empty, 0⟩
    command arguments (here text) =
        ⟨1, "  ((1 + 2) * 3)\n→ (3 * 3)\n= (9)\n= (6)\n",
          ["division by zero", "expected an atom"]⟩ ∧
      (command arguments (here text)).output =
        .concat ((askedLines text).map fun line => (command arguments (here line)).output) := by
  intro arguments text here
  let o : Options := { file := some "sums", marker := some .none, maxSteps := some 2 }
  have hread : Options.read arguments = .ok o := by decide +kernel
  have hoffers (text : String) : (here text).Offers o text := .file rfl rfl rfl
  refine ⟨?_, (command_lineByLine hread (hoffers text) here fun line _ => hoffers line).2.1⟩
  rw [command_of_offers hread (hoffers text)]
  decide +kernel

end Innermost
