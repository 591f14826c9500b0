import Innermost.Proofs.Rendering.Marking
import Innermost.Proofs.Tracing.History

/-!
Every step of a trace shows one replacement, and goes on from the step before it.

* `ReplacesTarget`: what one step shows. Its two lines are the same but for a marked piece,
  the target in one and its value in the other.
* `replacesTarget_stepAt`: the line that is read back is, but for the marks, the second of
  them. Both are written along the path to the target, while that line is the text of
  the expression in which the target has been exchanged; what comes before the target
  and after it does not depend on what is written in its place
  (`exists_textWith_eq`).
* `replacesTarget_of_getElem?`: so it is with every step of a run, between the expressions
  that the run holds before the step and after it.
* `traceRun_replaces` puts this together for the trace of a text.
-/

namespace Innermost

open Innermost.Expr (Located)

/-! ### One step and a whole run -/

/-- What a step from the expression `e` to the expression `next` shows, if the
evaluator is asked about `text`: this is the text of the target of `e`, and between
what comes before it and after it in the text of `e` there stands, once the step is
taken, the value that the evaluator answers with. -/
def ReplacesTarget (ctx : Context) (e next : Expr) (text : String) (step : Step) : Prop :=
  ∃ t value pre suf, e.target? = some t ∧ t.node.text = text ∧
    ctx.evaluator text = .ok value ∧
    e.text = pre ++ text ++ suf ∧
    step.before = pre ++ ctx.marker .target text ++ suf ∧
    step.after = pre ++ ctx.marker .result value ++ suf ∧
    next.text = parenthesised (pre ++ value ++ suf) ∧ Expr.parse next.text = .ok next

section Run

variable {ctx : Context} {source : String} {left taken : Nat} {e : Expr}

/-- The lines of one step and the line that is read back agree on all but the
target. -/
lemma replacesTarget_stepAt {t : Located} {value : String} (he : e.Readable)
    (ht : e.target? = some t) (hv : (t.node.evaluate ctx.evaluator).answer = .ok value) :
    ReplacesTarget ctx e (e.replace t.path (.atom value)).regrouped t.node.text
      (stepAt ctx e t value) := by
  obtain ⟨hget, hr⟩ := Expr.get?_of_target? ht
  obtain ⟨pre, suf, hpiece⟩ := Expr.exists_textWith_eq hget
  have hword := Expr.isWord_of_evaluate hv
  have hanswer : ctx.evaluator t.node.text = .ok value := by
    rw [Expr.evaluate_of_isReducible _ hr] at hv
    exact (acceptAnswer_eq_ok_iff.mp hv).1
  have hbefore : e.text = pre ++ t.node.text ++ suf := by
    rw [← Expr.textWith_text_of_get? hget, hpiece]
  have hline : (e.replace t.path (.atom value)).text = pre ++ value ++ suf := by
    rw [← Expr.textWith_text, Expr.text_atom, hpiece]
  have hnext : (e.replace t.path (.atom value)).regrouped.text =
      parenthesised (pre ++ value ++ suf) := by
    rw [← hline, Expr.parenthesised_text (he.legible.replace (.atom hword) t.path)]
  exact ⟨t, value, pre, suf, ht, rfl, hanswer, hbefore, hpiece _, hpiece _, hnext,
    (he.regrouped_replace ht hword).parse_text⟩

/-- Every step of a run replaces the target of the expression that is held before
it. -/
theorem replacesTarget_of_getElem? (he : e.Readable) {k : Nat} {step : Step}
    (hstep : (historyFrom ctx source left taken e).run.steps[k]? = some step) :
    ∃ x next text, (historyFrom ctx source left taken e).held[k]? = some x ∧
      (historyFrom ctx source left taken e).held[k + 1]? = some next ∧
      (historyFrom ctx source left taken e).run.asked[k]? = some text ∧
      ReplacesTarget ctx x next text step :=
  exists_held_of_getElem?_steps replacesTarget_stepAt he hstep

end Run

/-! ### Traces of texts -/

/-- **Every step of a trace shows one replacement, and the steps follow each other.**
Of the expressions that the trace of a text holds, the first one is what the text is
read as, one comes after each step, and the last one is the answer. The `k`-th step
shows the target of the `k`-th of them replaced by the value that the evaluator gives
it, about which the `k`-th question is; the line that this leaves, in parentheses if
it is a bare atom, is the text of the next expression, and is read as it. -/
theorem traceRun_replaces (ctx : Context) (source : String) :
    let run := traceRun ctx source
    let held := (historyOf ctx source).held
    (historyOf ctx source).run = run ∧
      (∀ e, Expr.parse source = .ok e →
        held.head? = some e ∧ held.length = run.steps.length + 1) ∧
      (∀ answer, run.outcome = .ok answer → held.getLast? = some answer) ∧
      ∀ (k : Nat) (step : Step), run.steps[k]? = some step →
        ∃ e next text, held[k]? = some e ∧ held[k + 1]? = some next ∧
          run.asked[k]? = some text ∧ ReplacesTarget ctx e next text step := by
  simp only
  rw [← run_historyOf]
  cases hparse : Expr.parse source with
  | error d =>
      have hrun : (historyOf ctx source).run = .stopped (.error (.inInput source d)) := by
        rw [run_historyOf, traceRun, hparse]
      rw [hrun]
      refine ⟨rfl, ?_, ?_, ?_⟩
      · rintro e ⟨⟩
      · rintro answer ⟨⟩
      · rintro k step ⟨⟩
  | ok e =>
      have he := Expr.readable_of_parse hparse
      rw [historyOf_of_parse hparse]
      refine ⟨rfl, ?_, fun answer => getLast?_held he, fun k step => replacesTarget_of_getElem? he⟩
      rintro _ ⟨⟩
      exact ⟨head?_held he, length_held he⟩

/-- The second step of a trace in which words are run together: it replaces the last
of three children. -/
theorem traceRun_replaces_concat :
    let ctx : Context := { evaluator := .concat, marker := .tags }
    let source := "(x (a b) (c d))"
    let step : Step := ⟨"(x ab <t>(c d)</t>)", "(x ab <r>cd</r>)"⟩
    let held := (historyOf ctx source).held
    Expr.parse source =
        .ok (.group [.atom "x", .group [.atom "a", .atom "b"], .group [.atom "c", .atom "d"]]) ∧
      (traceRun ctx source).outcome = .ok (.group [.atom "xabcd"]) ∧
      (traceRun ctx source).steps[1]? = some step ∧
      held.length = 4 ∧ held.getLast? = some (.group [.atom "xabcd"]) ∧
      ∃ e next, held[1]? = some e ∧ held[2]? = some next ∧
        ReplacesTarget ctx e next "(c d)" step := by
  intro ctx source step held
  have hparse : Expr.parse source =
      .ok (.group [.atom "x", .group [.atom "a", .atom "b"], .group [.atom "c", .atom "d"]]) := by
    decide +kernel
  have hout : (traceRun ctx source).outcome = .ok (.group [.atom "xabcd"]) := by decide +kernel
  have hstep : (traceRun ctx source).steps[1]? = some step := by decide +kernel
  have hasked : (traceRun ctx source).asked[1]? = some "(c d)" := by decide +kernel
  have hsteps : (traceRun ctx source).steps.length = 3 := by decide +kernel
  obtain ⟨-, hheld, hlast, hreplaces⟩ := traceRun_replaces ctx source
  obtain ⟨e, next, text, he, hnext, htext, h⟩ := hreplaces 1 step hstep
  obtain rfl : text = "(c d)" := Option.some.inj (htext.symm.trans hasked)
  exact ⟨hparse, hout, hstep, by rw [(hheld _ hparse).2, hsteps], hlast _ hout, e, next, he,
    hnext, h⟩

end Innermost
