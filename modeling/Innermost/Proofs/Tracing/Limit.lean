import Innermost.Proofs.Tracing.Failures

/-!
What the limit on the number of steps does to a trace: it cuts it off, and nothing else.

* `Unlimited` is the simplification of an expression that is given all the steps it takes.
  It has no way to stop but at an answer and at an evaluation that fails, and there is
  exactly one for every readable expression (`exists_unlimited`, `Unlimited.eq`).
* `Run.cutAt` stops a run short of its first question beyond a limit. The run from an
  expression is the unlimited one, cut off (`Unlimited.historyFrom_eq`): one case for each
  way to stop, and a step is taken out of the limit and out of the run alike.
* `Truncates` is what this means for the steps, the questions and the outcome, and
  `traceRun_limit` says it of the traces of a text.
-/

namespace Innermost

open Innermost.Expr (Located)

/-! ### Runs without a limit -/

/-- The simplification that starts at an expression and ends with an answer, or with an
evaluation that fails, after however many steps. -/
inductive Unlimited (f : Evaluator) (marker : Marker) : Expr → Run → Prop where
  | done {e : Expr} (ht : e.target? = none) : Unlimited f marker e (.stopped (.ok e))
  | failed {e : Expr} {t : Located} {failure : Failure} (ht : e.target? = some t)
      (hv : (t.node.evaluate f).answer = .error failure) :
      Unlimited f marker e (.after [] [t.node.text] (.stopped (.error failure)))
  | step {e next : Expr} {t : Located} {value : String} {rest : Run} (ht : e.target? = some t)
      (hv : (t.node.evaluate f).answer = .ok value)
      (hnext : Expr.parse (parenthesised (Reduction.apply ⟨t.path, value⟩ e).text) = .ok next)
      (hrest : Unlimited f marker next rest) :
      Unlimited f marker e
        (.after
          [⟨e.textWith (marker .target t.node.text) t.path,
            e.textWith (marker .result value) t.path⟩]
          [t.node.text] rest)

section Runs

variable {f : Evaluator} {marker : Marker} {e : Expr} {run run' : Run}

/-- Some run is unlimited, since every step leaves a smaller expression. -/
lemma exists_unlimited (f : Evaluator) (marker : Marker) {e : Expr} (he : e.Readable) :
    ∃ run, Unlimited f marker e run := by
  induction hn : e.nodeCount using Nat.strong_induction_on generalizing e with
  | _ n ih =>
      cases ht : e.target? with
      | none => exact ⟨_, .done ht⟩
      | some t =>
          cases hv : (t.node.evaluate f).answer with
          | error failure => exact ⟨_, .failed ht hv⟩
          | ok value =>
              have hword := Expr.isWord_of_evaluate hv
              have hlt := Expr.nodeCount_regrouped_lt ht value
              obtain ⟨rest, hrest⟩ := ih _ (hn ▸ hlt) (he.regrouped_replace ht hword) rfl
              exact ⟨_, .step ht hv (he.parse_parenthesised ht hword) hrest⟩

/-- Whether a run has ended with an evaluation that failed. -/
def Run.evaluationFailed (run : Run) : Bool :=
  match run.outcome with
  | .ok _ => false
  | .error failure => failure.place = .group

/-- An unlimited run fails at nothing but an evaluation, and this is its one question that
no step answers. -/
lemma Unlimited.ends (h : Unlimited f marker e run) :
    run.asked.length = run.steps.length + run.evaluationFailed.toNat ∧
      ∀ failure, run.outcome = .error failure → run.evaluationFailed = true ∧
        ∃ text, run.asked.getLast? = some text ∧ FailsAt f text failure := by
  induction h with
  | done ht => exact ⟨rfl, fun _ h => nomatch h⟩
  | @failed e t failure ht hv =>
      rw [Expr.evaluate_of_isReducible _ (Expr.get?_of_target? ht).2] at hv
      have hfails := acceptAnswer_eq_error_iff.mp hv
      have hfailed : Run.evaluationFailed (.after [] [t.node.text] (.stopped (.error failure))) =
          true := decide_eq_true hfails.place_eq
      refine ⟨by rw [hfailed]; rfl, fun failure' h => ⟨hfailed, t.node.text, rfl, ?_⟩⟩
      cases h
      exact hfails
  | step ht hv hnext hrest ih =>
      obtain ⟨hlength, hfailure⟩ := ih
      refine ⟨?_, fun failure h => ?_⟩
      · simp only [Run.after, List.length_append, List.length_singleton, hlength]
        rw [Nat.add_assoc]
        rfl
      · obtain ⟨hfailed, text, hlast, hfails⟩ := hfailure failure h
        exact ⟨hfailed, text, Run.getLast?_asked_after hlast _ _, hfails⟩

/-! ### Cutting a run off -/

/-- The run with at most `left` questions. If it has more, it comes to its limit instead,
and has then taken `left` steps on top of those `taken` before. -/
def Run.cutAt (source : String) (left taken : Nat) (run : Run) : Run :=
  if run.asked.length ≤ left then run
  else ⟨run.steps.take left, run.asked.take left, .error (unfinished source (taken + left))⟩

variable {source : String}

lemma Run.cutAt_of_le {left : Nat} (h : run.asked.length ≤ left) (taken : Nat) :
    run.cutAt source left taken = run := if_pos h

/-- A run that asks anything is cut off at once if it may not ask. -/
lemma Run.cutAt_zero (h : run.asked ≠ []) (taken : Nat) :
    run.cutAt source 0 taken = .stopped (.error (unfinished source taken)) := by
  rw [cutAt, if_neg (by simpa using h)]
  rfl

/-- One step and its question are taken out of the limit. -/
lemma Run.cutAt_after (step : Step) (text : String) (left taken : Nat) :
    (run.after [step] [text]).cutAt source (left + 1) taken =
      (run.cutAt source left (taken + 1)).after [step] [text] := by
  by_cases h : run.asked.length ≤ left
  · rw [cutAt_of_le h, cutAt_of_le]
    simpa [after] using h
  · rw [cutAt, if_neg (by simpa [after] using h), cutAt, if_neg h]
    simp [after, Nat.add_right_comm, Nat.add_assoc]

/-- **The run from an expression is the unlimited one, cut off at the limit.** -/
lemma Unlimited.historyFrom_eq (h : Unlimited f marker e run) (source : String)
    (he : e.Readable) (maxSteps left taken : Nat) :
    (historyFrom ⟨f, marker, maxSteps⟩ source left taken e).run = run.cutAt source left taken := by
  induction h generalizing left taken with
  | done ht =>
      rw [(Stops.done ht).historyFrom_eq, Run.cutAt_of_le (Nat.zero_le _)]
  | failed ht hv =>
      cases left with
      | zero => rw [(Stops.limit ht).historyFrom_eq, Run.cutAt_zero (List.cons_ne_nil _ _)]
      | succ left =>
          rw [(Stops.failed ht hv).historyFrom_eq, Run.cutAt_of_le]
          exact Nat.le_add_left 1 left
  | @step e next t value rest ht hv hnext hrest ih =>
      have hword := Expr.isWord_of_evaluate hv
      obtain rfl : next = (e.replace t.path (.atom value)).regrouped :=
        Except.ok.inj (hnext.symm.trans (he.parse_parenthesised ht hword))
      cases left with
      | zero => rw [(Stops.limit ht).historyFrom_eq, Run.cutAt_zero (List.cons_ne_nil _ _)]
      | succ left =>
          rw [historyFrom_step he ht hv, Run.cutAt_after]
          simp only [ih (he.regrouped_replace ht hword)]
          rfl

/-- Only one run is unlimited: the one that any sufficient limit leaves. -/
lemma Unlimited.eq (h : Unlimited f marker e run) (h' : Unlimited f marker e run')
    (he : e.Readable) : run = run' := by
  have hrun := h.historyFrom_eq "" he 0 (max run.asked.length run'.asked.length) 0
  have hrun' := h'.historyFrom_eq "" he 0 (max run.asked.length run'.asked.length) 0
  rw [Run.cutAt_of_le (le_max_left _ _)] at hrun
  rw [Run.cutAt_of_le (le_max_right _ _)] at hrun'
  exact hrun.symm.trans hrun'

/-! ### What the limit leaves -/

/-- How a run that may take `limit` steps stands to the one that may take any number. -/
structure Truncates (source : String) (limit : Nat) (full run : Run) : Prop where
  /-- It takes the same steps, as many as it may. -/
  steps_eq : run.steps = full.steps.take (min full.steps.length limit)
  /-- It asks the same questions, as many as it may. -/
  asked_eq : run.asked = full.asked.take limit
  /-- It ends alike if a step is left, and also without if it ends with an answer. -/
  unchanged : full.steps.length < limit ∨
    full.steps.length = limit ∧ (∃ answer, full.outcome = .ok answer) → run.outcome = full.outcome
  /-- Otherwise it ends at its limit, of which the whole source is shown. -/
  cut : limit < full.steps.length ∨
    full.steps.length = limit ∧ (∃ failure, full.outcome = .error failure) →
      run.outcome = .error ⟨.input, source,
        ⟨.reduction (.unfinished limit), [⟨0, source.utf8ByteSize⟩]⟩⟩
  /-- It asks one question for each step, and one more if an evaluation fails. -/
  length_asked : run.asked.length = run.steps.length + run.evaluationFailed.toNat

/-- The unlimited run cut off is truncated. -/
lemma Unlimited.truncates (h : Unlimited f marker e run) (source : String) (limit : Nat) :
    Truncates source limit run (run.cutAt source limit 0) := by
  obtain ⟨hlength, hfails⟩ := h.ends
  by_cases hle : run.asked.length ≤ limit
  · rw [Run.cutAt_of_le hle]
    refine ⟨?_, (List.take_of_length_le hle).symm, fun _ => rfl, ?_, hlength⟩
    · rw [List.take_of_length_le (by omega)]
    · rintro (hlt | ⟨heq, failure, hfailure⟩)
      · omega
      · rw [(hfails failure hfailure).1, Bool.toNat_true] at hlength
        omega
  · rw [Run.cutAt, if_neg hle, Nat.zero_add]
    have hbool := run.evaluationFailed.toNat_le
    refine ⟨?_, rfl, ?_, fun _ => rfl, ?_⟩
    · rw [Nat.min_eq_right (by omega)]
    · rintro (hlt | ⟨heq, answer, hanswer⟩)
      · omega
      · have hno : run.evaluationFailed = false := by rw [Run.evaluationFailed, hanswer]
        rw [hno, Bool.toNat_false] at hlength
        omega
    · simp only [List.length_take]
      rw [Nat.min_eq_left (by omega), Nat.min_eq_left (by omega)]
      rfl

/-- No higher limit takes a step back. -/
lemma Truncates.steps_mono {limit limit' : Nat} {full : Run}
    (h : Truncates source limit full run) (h' : Truncates source limit' full run')
    (hle : limit ≤ limit') : run.steps <+: run'.steps := by
  rw [h.steps_eq, h'.steps_eq]
  exact List.take_prefix_take_left (by omega)

/-- A run that is not cut off at a limit is not cut off at a higher one. -/
lemma Run.cutAt_of_outcome {limit limit' taken : Nat} (hle : limit ≤ limit') {answer : Expr}
    (h : (run.cutAt source limit taken).outcome = .ok answer) :
    run.cutAt source limit' taken = run.cutAt source limit taken := by
  have hlength : run.asked.length ≤ limit := by
    by_contra hlt
    rw [cutAt, if_neg hlt] at h
    cases h
  rw [cutAt_of_le hlength, cutAt_of_le (hlength.trans hle)]

end Runs

/-! ### Traces of texts -/

/-- **The limit on the number of steps only cuts a trace off.** There is one run without a
limit, which ends with an answer, or with an evaluation that fails and comes after all its
steps. The trace with a limit

* takes the first steps of that run, as many as it may, and asks the same questions;
* ends as that run does if the limit is above the number of its steps, and also if it is
  this number and the run ends with an answer;
* and in every other case fails at its limit, without another question.

So a higher limit never takes a step back, nor changes a trace that has come to an
answer. -/
theorem traceRun_limit (f : Evaluator) (marker : Marker) {source : String} {e : Expr}
    (h : Expr.parse source = .ok e) :
    let run (limit : Nat) := traceRun ⟨f, marker, limit⟩ source
    ∃ full, (∀ r, Unlimited f marker e r ↔ r = full) ∧
      full.asked.length = full.steps.length + full.evaluationFailed.toNat ∧
      (∀ failure, full.outcome = .error failure → full.evaluationFailed = true ∧
        ∃ text, full.asked.getLast? = some text ∧ FailsAt f text failure) ∧
      (∀ limit, Truncates source limit full (run limit)) ∧
      ∀ limit limit', limit ≤ limit' →
        (run limit).steps <+: (run limit').steps ∧
          ∀ answer, (run limit).outcome = .ok answer → run limit' = run limit := by
  intro run
  have he := Expr.readable_of_parse h
  obtain ⟨full, hfull⟩ := exists_unlimited f marker he
  have hrun (limit : Nat) : run limit = full.cutAt source limit 0 := by
    rw [← hfull.historyFrom_eq source he limit, ← historyOf_of_parse h, run_historyOf]
  have htruncates (limit : Nat) : Truncates source limit full (run limit) :=
    hrun limit ▸ hfull.truncates source limit
  have hmono {limit limit' : Nat} (hle : limit ≤ limit') {answer : Expr}
      (hanswer : (run limit).outcome = .ok answer) : run limit' = run limit := by
    rw [hrun] at hanswer ⊢
    rw [hrun]
    exact Run.cutAt_of_outcome hle hanswer
  exact ⟨full, fun r => ⟨fun hr => hr.eq hfull he, fun hr => hr ▸ hfull⟩, hfull.ends.1,
    hfull.ends.2, htruncates, fun limit limit' hle =>
      ⟨(htruncates limit).steps_mono (htruncates limit') hle, fun _ => hmono hle⟩⟩

/-- Where the second evaluation fails, one step is the limit that does not show it yet. -/
theorem traceRun_limit_failing :
    let f : Evaluator := .lookup [("(a b)", "x")] (.fail ⟨.literal .divisionByZero, []⟩)
    let source := "((a b) c)"
    let e := Expr.group [.group [.atom "a", .atom "b"], .atom "c"]
    let run (limit : Nat) := traceRun ⟨f, .brackets, limit⟩ source
    Expr.parse source = .ok e ∧ ∃ full, Unlimited f .brackets e full ∧ full.steps.length = 1 ∧
      (run 1).outcome = .error ⟨.input, source, ⟨.reduction (.unfinished 1), [⟨0, 9⟩]⟩⟩ ∧
      (run 2).outcome = full.outcome := by
  intro f source e run
  have hparse : Expr.parse source = .ok e := by decide +kernel
  obtain ⟨full, hfull, -, -, htruncates, -⟩ := traceRun_limit f .brackets hparse
  have hsteps : (run 2).steps.length = 1 := by decide +kernel
  have hfails : (run 2).outcome = .error ⟨.group, "(x c)", ⟨.literal .divisionByZero, []⟩⟩ := by
    decide +kernel
  have hone : full.steps.length = 1 := by
    rw [(htruncates 2).steps_eq, List.length_take] at hsteps
    omega
  have hsame : (run 2).outcome = full.outcome := (htruncates 2).unchanged (.inl (by omega))
  exact ⟨hparse, full, (hfull full).mpr rfl, hone,
    (htruncates 1).cut (.inr ⟨hone, _, hsame ▸ hfails⟩), hsame⟩

end Innermost
