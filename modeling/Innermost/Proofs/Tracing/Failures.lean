import Innermost.Proofs.Grammar.Scan
import Innermost.Proofs.Tracing.History

/-!
What a trace can fail of.

* `FailsOnAsking`: the computations on one expression that fail only because the evaluator
  is asked about a text and its answer cannot be used. They are the search for a
  reduction, a simplification and a rendering, since each of them asks about a target
  only, which is reducible (`failsOnAsking_find`, `failsOnAsking_simplify`,
  `failsOnAsking_render`).
* `failure_historyFrom`: a run fails at its last question or at its limit. The stops for a
  line that does not read back are not among them (`Stops`), so this is one case for each
  way to stop, handed on by every step.
* `traceRun_failure` puts this together for the trace of a text.
-/

namespace Innermost

open Innermost.Expr (Located)

/-! ### Failing on a question -/

section Asking

variable {f : Evaluator} {α β : Type}

/-- A computation that fails does so on its only question, and the evaluator itself must
have said so if the failure is that the group is not reducible. -/
def FailsOnAsking (f : Evaluator) (c : Consultation (Except Failure α)) : Prop :=
  ∀ failure, c.answer = .error failure →
    ∃ text, c.asked = [text] ∧ FailsAt f text failure ∧
      (failure.diagnostic.cause = .reduction .notReducible → f text = .error failure.diagnostic)

lemma failsOnAsking_pure (f : Evaluator) (a : α) : FailsOnAsking f (.pure (.ok a)) :=
  fun _ h => nomatch h

/-- What is made of a result does not fail. -/
lemma FailsOnAsking.map {c : Consultation (Except Failure α)} (h : FailsOnAsking f c)
    (g : α → β) : FailsOnAsking f (c.map (·.map g)) := by
  intro failure hfailure
  rw [Consultation.answer_map] at hfailure
  cases hc : c.answer with
  | ok a =>
      rw [hc] at hfailure
      cases hfailure
  | error failure' =>
      rw [hc] at hfailure
      cases hfailure
      exact h failure hc

end Asking

/-! ### One expression -/

namespace Expr

variable (f : Evaluator) {e : Expr} {t : Located}

/-- The evaluation of a target fails only on its question. -/
lemma failsOnAsking_evaluate (ht : e.target? = some t) : FailsOnAsking f (t.node.evaluate f) := by
  rw [evaluate_of_isReducible f (get?_of_target? ht).2]
  intro failure h
  have hfails := acceptAnswer_eq_error_iff.mp h
  exact ⟨t.node.text, rfl, hfails, fun hcause => hfails.eq_error (by simp [hcause])⟩

lemma failsOnAsking_find (e : Expr) : FailsOnAsking f (Reduction.find f e) := by
  rw [Reduction.find]
  cases ht : e.target? with
  | none => exact failsOnAsking_pure f none
  | some t => exact (failsOnAsking_evaluate f ht).map _

lemma failsOnAsking_simplify (e : Expr) : FailsOnAsking f (e.simplify f) :=
  (failsOnAsking_find f e).map _

lemma failsOnAsking_render (marker : Marker) (options : RenderOptions) (e : Expr) :
    FailsOnAsking f (e.render f marker options) := by
  rw [render]
  cases ht : e.target? with
  | none => exact failsOnAsking_pure f e.text
  | some t =>
      by_cases hcollapse : options.collapse
      · simp only [if_pos hcollapse]
        exact (failsOnAsking_evaluate f ht).map _
      · simp only [if_neg hcollapse]
        exact failsOnAsking_pure f _

end Expr

/-! ### A whole run -/

section Run

variable {ctx : Context} {source : String} {left taken : Nat} {e : Expr}

/-- What a run asked last was asked last, whatever came before the run. -/
lemma Run.getLast?_asked_after {run : Run} {text : String} (h : run.asked.getLast? = some text)
    (steps : List Step) (asked : List String) :
    (Run.after steps asked run).asked.getLast? = some text := by
  rw [Run.after, List.getLast?_append, h]
  rfl

/-- A run that fails has reached its limit, or what it asked last was answered with
something that cannot be used. -/
theorem failure_historyFrom (he : e.Readable) {failure : Failure}
    (h : (historyFrom ctx source left taken e).run.outcome = .error failure) :
    failure = unfinished source (taken + left) ∨
      ∃ text, (historyFrom ctx source left taken e).run.asked.getLast? = some text ∧
        FailsAt ctx.evaluator text failure := by
  revert h
  refine history_induction (P := fun left taken _ h => h.run.outcome = .error failure →
    failure = unfinished source (taken + left) ∨
      ∃ text, h.run.asked.getLast? = some text ∧ FailsAt ctx.evaluator text failure)
    ?_ ?_ left taken he
  · intro left taken e run _ hstop h
    cases hstop with
    | done ht => cases h
    | limit ht =>
        cases h
        exact .inl rfl
    | failed ht hv =>
        cases h
        obtain ⟨text, hasked, hfails, -⟩ := Expr.failsOnAsking_evaluate ctx.evaluator ht _ hv
        rw [Expr.evaluate_of_isReducible _ (Expr.get?_of_target? ht).2] at hasked
        exact .inr ⟨text, congrArg List.getLast? hasked, hfails⟩
  · intro left taken _ t _ rest _ _ _ _ ih h
    obtain hlimit | ⟨text, hlast, hfails⟩ := ih h
    · exact .inl (by rw [hlimit, Nat.add_right_comm, Nat.add_assoc])
    · exact .inr ⟨text, Run.getLast?_asked_after hlast _ _, hfails⟩

end Run

/-! ### Traces of texts -/

/-- The trace of a text without an expression is its failure to be read. -/
lemma traceRun_of_parse_error (ctx : Context) {source : String} {d : Diagnostic}
    (h : Expr.parse source = .error d) :
    traceRun ctx source = .stopped (.error (.inInput source d)) := by
  simp only [traceRun, h]

/-- A trace fails because its text cannot be read, or on its last question, or at its
limit. -/
lemma failure_traceRun {ctx : Context} {source : String} {failure : Failure}
    (h : (traceRun ctx source).outcome = .error failure) :
    (∃ d, Expr.parse source = .error d ∧ failure = .inInput source d ∧
        (traceRun ctx source).steps = [] ∧ (traceRun ctx source).asked = []) ∨
      (∃ text, (traceRun ctx source).asked.getLast? = some text ∧
        FailsAt ctx.evaluator text failure) ∨
      failure = unfinished source ctx.maxSteps := by
  cases hparse : Expr.parse source with
  | error d =>
      rw [traceRun_of_parse_error ctx hparse] at h ⊢
      cases h
      exact .inl ⟨d, rfl, rfl, rfl, rfl⟩
  | ok e =>
      rw [← run_historyOf, historyOf_of_parse hparse] at h ⊢
      obtain hlimit | hfails := failure_historyFrom (Expr.readable_of_parse hparse) h
      · exact .inr (.inr (by rw [hlimit, Nat.zero_add]))
      · exact .inr (.inl hfails)

/-- What a trace fails of if it fails of neither its text nor its limit, nor of an answer
that is no atom: an error of the evaluator's own. -/
lemma error_of_traceRun {ctx : Context} {source : String} {failure : Failure}
    (h : (traceRun ctx source).outcome = .error failure)
    (hcause : failure.diagnostic.cause = .reduction .notReducible ∨
      (∃ fault, failure.diagnostic.cause = .read fault ∧
        Expr.parse source ≠ .error failure.diagnostic) ∨
      ∃ steps, failure.diagnostic.cause = .reduction (.unfinished steps) ∧ steps ≠ ctx.maxSteps) :
    ∃ text, (traceRun ctx source).asked.getLast? = some text ∧
      ctx.evaluator text = .error failure.diagnostic := by
  obtain ⟨d, hparse, rfl, -⟩ | ⟨text, hlast, hfails⟩ | rfl := failure_traceRun h
  · obtain ⟨fault, hfault⟩ := Expr.exists_read_of_parse hparse
    obtain hred | ⟨-, -, hne⟩ | ⟨steps, hred, -⟩ := hcause
    · exact absurd (hfault.symm.trans hred) (by simp)
    · exact absurd hparse hne
    · exact absurd (hfault.symm.trans hred) (by simp)
  · refine ⟨text, hlast, hfails.eq_error fun answer hanswer => ?_⟩
    rw [hanswer] at hcause
    simp at hcause
  · obtain hred | ⟨fault, hread, -⟩ | ⟨steps, hsteps, hne⟩ := hcause
    · cases hred
    · cases hread
    · cases hsteps
      exact absurd rfl hne

/-- **Every failure of a trace is of one of three kinds.** It is

* the fault for which the text cannot be read, in which case nothing is asked and no step
  is taken;
* or what comes of the last question, whose answer cannot be used;
* or that the simplification is unfinished after as many steps as are allowed, of which
  the whole text is shown.

That a group is not reducible, that a text other than the given one cannot be read, or that
another number of steps was not enough, is only ever said by the evaluator. The same holds
of the first of these for a single reduction, simplification or rendering of any
expression. -/
theorem traceRun_failure :
    (∀ (ctx : Context) (source : String) (failure : Failure),
      (traceRun ctx source).outcome = .error failure →
      let run := traceRun ctx source
      ((∃ d, Expr.parse source = .error d ∧ failure = ⟨.input, source, d⟩ ∧
          run.steps = [] ∧ run.asked = []) ∨
        (∃ text, run.asked.getLast? = some text ∧ FailsAt ctx.evaluator text failure) ∨
        failure = ⟨.input, source,
          ⟨.reduction (.unfinished ctx.maxSteps), [⟨0, source.utf8ByteSize⟩]⟩⟩) ∧
      ((failure.diagnostic.cause = .reduction .notReducible ∨
          (∃ fault, failure.diagnostic.cause = .read fault ∧
            Expr.parse source ≠ .error failure.diagnostic) ∨
          ∃ steps, failure.diagnostic.cause = .reduction (.unfinished steps) ∧
            steps ≠ ctx.maxSteps) →
        ∃ text, run.asked.getLast? = some text ∧
          ctx.evaluator text = .error failure.diagnostic)) ∧
    ∀ (f : Evaluator) (e : Expr), FailsOnAsking f (Reduction.find f e) ∧
      FailsOnAsking f (e.simplify f) ∧
      ∀ (marker : Marker) (options : RenderOptions),
        FailsOnAsking f (e.render f marker options) :=
  ⟨fun _ _ _ h => ⟨failure_traceRun h, error_of_traceRun h⟩, fun f e =>
    ⟨Expr.failsOnAsking_find f e, Expr.failsOnAsking_simplify f e, fun marker options =>
      Expr.failsOnAsking_render f marker options e⟩⟩

/-- An evaluator that says itself that a group is not reducible is quoted, group and all. -/
theorem traceRun_failure_refused :
    let d : Diagnostic := ⟨.reduction .notReducible, [⟨1, 2⟩]⟩
    let ctx : Context := { evaluator := .lookup [("(a b)", "x")] (.fail d) }
    let run := traceRun ctx "((a b) c)"
    run.outcome = .error ⟨.group, "(x c)", d⟩ ∧
      ∃ text, run.asked.getLast? = some text ∧ ctx.evaluator text = .error d := by
  intro d ctx run
  have h : run.outcome = .error ⟨.group, "(x c)", d⟩ := by decide +kernel
  exact ⟨h, (traceRun_failure.1 ctx "((a b) c)" _ h).2 (.inl rfl)⟩

end Innermost
