import Innermost.Proofs.Reducing.Simplification
import Innermost.Proofs.Rendering.Marking
import Innermost.Proofs.Tracing.History

/-!
A trace tells what rendering and simplification tell, and asks only once for it.

* `render_collapsed`: with its target collapsed an expression is written as its simplification
  is. `render_annotated` and `render_annotated_collapsed` are the two lines of a step.
* `Expr.retold` is one step told by separate calls: the two lines, the simplification, and the
  plain line of what it leaves. Two of these calls ask the evaluator, about the same group
  (`retold_of_value`).
* `retoldFrom` is the whole run told in this way. It takes the same steps and ends alike, with
  two questions for each step where the run that shares the value has one (`retoldFrom_eq`).
* `RendersStep`: what the calls for the expression before a step tell of this step, which they do
  for every step of a run (`rendersStep_of_getElem?`).
* `traceRun_renders` puts this together.
-/

namespace Innermost

open Innermost.Expr (Located)

/-! ### Lines of one expression -/

namespace Expr

section Lines

variable {e : Expr} {t : Located} (f : Evaluator) (marker : Marker)

/-- Without a target there is nothing to show, whatever the options are. -/
lemma render_of_target?_eq_none (h : e.target? = none) (options : RenderOptions) :
    e.render f marker options = .pure (.ok e.text) := by
  rw [render]
  simp only [h]

/-- The line before a step. Nothing has to be evaluated for it. -/
lemma render_annotated (ht : e.target? = some t) :
    e.render f marker { annotate := true } =
      .pure (.ok (e.textWith (marker .target t.node.text) t.path)) := by
  rw [render]
  simp [ht]

/-- The line after a step. -/
lemma render_annotated_collapsed (ht : e.target? = some t) :
    e.render f marker { annotate := true, collapse := true } =
      (t.node.evaluate f).map (·.map fun value => e.textWith (marker .result value) t.path) := by
  rw [render]
  simp [ht]

/-- With its target collapsed an expression is written as its simplification is, and fails as
that does. -/
lemma render_collapsed (e : Expr) :
    e.render f marker { collapse := true } = (e.simplify f).map (·.map text) := by
  cases ht : e.target? with
  | none =>
      rw [render_of_target?_eq_none f marker ht, simplify_of_target?_eq_none f ht]
      rfl
  | some t =>
      have hline (value : String) :
          e.textWith value t.path = (e.replace t.path (.atom value)).text := by
        rw [← textWith_text, text_atom]
      rw [simplify_of_target? f ht, render]
      cases hv : (t.node.evaluate f).answer <;>
        simp [ht, Consultation.map, hv, Except.map, hline]

lemma asked_render_annotated (e : Expr) :
    (e.render f marker { annotate := true }).asked = [] := by
  cases ht : e.target? with
  | none => rw [render_of_target?_eq_none f marker ht, Consultation.asked_pure]
  | some t => rw [render_annotated f marker ht, Consultation.asked_pure]

/-- A marker that changes nothing leaves the line as it is. -/
lemma render_unmarked (e : Expr) :
    e.render f .unmarked { annotate := true } = .pure (.ok e.text) := by
  cases ht : e.target? with
  | none => exact render_of_target?_eq_none f .unmarked ht _
  | some t =>
      rw [render_annotated f .unmarked ht, Marker.unmarked,
        textWith_text_of_get? (get?_of_target? ht).1]

end Lines

/-! ### One step by separate calls -/

/-- The next step of an expression and the plain line that it leaves, each line by a call of
its own. -/
def retold (ctx : Context) (e : Expr) : Consultation (Except Failure (Step × String)) :=
  (e.render ctx.evaluator ctx.marker { annotate := true }).andThen fun before =>
    (e.render ctx.evaluator ctx.marker { annotate := true, collapse := true }).andThen fun after =>
      (e.simplify ctx.evaluator).andThen fun reduced =>
        (reduced.render ctx.evaluator ctx.marker {}).map
          (·.map fun plain => (⟨before, after⟩, plain))

section Step

variable {ctx : Context} {e : Expr} {t : Located}

/-- One question is asked about the target, whatever comes of it. -/
lemma evaluate_target {f : Evaluator} {result : Except Failure String} (ht : e.target? = some t)
    (hv : (t.node.evaluate f).answer = result) : t.node.evaluate f = ⟨[t.node.text], result⟩ := by
  rw [evaluate_of_isReducible f (get?_of_target? ht).2] at hv ⊢
  rw [← hv]

/-- The group is evaluated for the line after the step, and again for the simplification. -/
lemma retold_of_value {value : String} (ht : e.target? = some t)
    (hv : (t.node.evaluate ctx.evaluator).answer = .ok value) :
    e.retold ctx = ⟨[t.node.text, t.node.text],
      .ok (stepAt ctx e t value, (e.replace t.path (.atom value)).text)⟩ := by
  rw [retold, render_annotated _ _ ht, render_annotated_collapsed _ _ ht,
    simplify_of_target? _ ht, evaluate_target ht hv, Consultation.pure_andThen,
    Consultation.map_andThen, Consultation.andThen_of_ok rfl, Consultation.map_andThen,
    Consultation.andThen_of_ok rfl, render_plain]
  rfl

/-- An evaluation that fails is not repeated. -/
lemma retold_of_failure {failure : Failure} (ht : e.target? = some t)
    (hv : (t.node.evaluate ctx.evaluator).answer = .error failure) :
    e.retold ctx = ⟨[t.node.text], .error failure⟩ := by
  rw [retold, render_annotated _ _ ht, render_annotated_collapsed _ _ ht, evaluate_target ht hv,
    Consultation.pure_andThen, Consultation.map_andThen, Consultation.andThen_of_error rfl]

end Step

end Expr

/-! ### A whole run by separate calls -/

/-- The simplification `runFrom`, each step of which is told by separate calls. -/
def retoldFrom (ctx : Context) (source : String) : (left taken : Nat) → Expr → Run
  | left, taken, e =>
      match e.hasReducible with
      | false => .stopped (.ok e)
      | true =>
          match left with
          | 0 => .stopped (.error (unfinished source taken))
          | left + 1 =>
              let told := e.retold ctx
              match told.answer with
              | .error failure => .after [] told.asked (.stopped (.error failure))
              | .ok (step, plain) =>
                  let line := parenthesised plain
                  .after [step] told.asked <|
                    match Expr.parse line with
                    | .error d => .stopped (.error (.inInput line d))
                    | .ok next =>
                        if next.nodeCount < e.nodeCount then
                          retoldFrom ctx source left (taken + 1) next
                        else .stopped (.error (unfinished source (taken + 1)))

/-- The simplification of the expression that a text holds, told by separate calls. -/
def retoldRun (ctx : Context) (source : String) : Run :=
  match Expr.parse source with
  | .error d => .stopped (.error (.inInput source d))
  | .ok e => retoldFrom ctx source ctx.maxSteps 0 e

/-- The questions of a run, those that led to a step asked twice. -/
def Run.askedSeparately (run : Run) : List String :=
  (run.asked.take run.steps.length).flatMap (fun text => [text, text]) ++
    run.asked.drop run.steps.length

lemma Run.askedSeparately_after (step : Step) (text : String) (run : Run) :
    (run.after [step] [text]).askedSeparately = [text, text] ++ run.askedSeparately := by
  simp [after, askedSeparately]

/-- What separate calls for the expression `e` tell of a step from there to `next`: its two
lines, for the second of which the evaluator is asked about `text`, and, with the same question
again, the expression that it leaves. -/
structure RendersStep (ctx : Context) (e next : Expr) (text : String) (step : Step) : Prop where
  before : e.render ctx.evaluator ctx.marker { annotate := true } = ⟨[], .ok step.before⟩
  after : e.render ctx.evaluator ctx.marker { annotate := true, collapse := true } =
    ⟨[text], .ok step.after⟩
  simplified : ∃ reduced, e.simplify ctx.evaluator = ⟨[text], .ok reduced⟩ ∧
    Expr.parse (parenthesised reduced.text) = .ok next

section Run

variable {ctx : Context} {source : String} {left taken : Nat} {e : Expr} {run : Run}

/-- A run that stops does so too if it is told by separate calls. -/
lemma Stops.retoldFrom_eq (h : Stops ctx source left taken e run) :
    retoldFrom ctx source left taken e = ⟨run.steps, run.askedSeparately, run.outcome⟩ := by
  unfold retoldFrom
  rw [Expr.hasReducible_eq_isSome_target?]
  cases h with
  | done ht =>
      rw [ht]
      rfl
  | limit ht =>
      rw [ht]
      rfl
  | failed ht hv =>
      rw [ht, Expr.retold_of_failure ht hv]
      rfl

/-- **A run told by separate calls takes the same steps and ends alike.** It asks twice for
each step. -/
theorem retoldFrom_eq (ctx : Context) (source : String) (left taken : Nat) (he : e.Readable) :
    retoldFrom ctx source left taken e =
      let run := (historyFrom ctx source left taken e).run
      ⟨run.steps, run.askedSeparately, run.outcome⟩ := by
  refine history_induction (P := fun left taken e h => retoldFrom ctx source left taken e =
    ⟨h.run.steps, h.run.askedSeparately, h.run.outcome⟩) ?_ ?_ left taken he
  · exact fun _ hstop => hstop.retoldFrom_eq
  · intro left taken e t value rest he ht hv _ ih
    have hparse := he.parse_parenthesised ht (Expr.isWord_of_evaluate hv)
    have hlt := Expr.nodeCount_regrouped_lt ht value
    unfold retoldFrom
    rw [Expr.hasReducible_eq_isSome_target?, ht, Expr.retold_of_value ht hv,
      Run.askedSeparately_after]
    simp only [Option.isSome_some, hparse, hlt, if_true, ih]
    rfl

lemma rendersStep_stepAt {t : Located} {value : String} (he : e.Readable)
    (ht : e.target? = some t) (hv : (t.node.evaluate ctx.evaluator).answer = .ok value) :
    RendersStep ctx e (e.replace t.path (.atom value)).regrouped t.node.text
      (stepAt ctx e t value) where
  before := Expr.render_annotated _ _ ht
  after := by
    rw [Expr.render_annotated_collapsed _ _ ht, Expr.evaluate_target ht hv]
    rfl
  simplified := by
    refine ⟨e.replace t.path (.atom value), ?_,
      he.parse_parenthesised ht (Expr.isWord_of_evaluate hv)⟩
    rw [Expr.simplify_of_target? _ ht, Expr.evaluate_target ht hv]
    rfl

/-- Separate calls tell every step of a run. -/
theorem rendersStep_of_getElem? (he : e.Readable) {k : Nat} {step : Step}
    (hstep : (historyFrom ctx source left taken e).run.steps[k]? = some step) :
    ∃ x next text, (historyFrom ctx source left taken e).held[k]? = some x ∧
      (historyFrom ctx source left taken e).held[k + 1]? = some next ∧
      (historyFrom ctx source left taken e).run.asked[k]? = some text ∧
      RendersStep ctx x next text step :=
  exists_held_of_getElem?_steps rendersStep_stepAt he hstep

end Run

/-! ### Traces of texts -/

/-- **Rendering, simplification and traces agree.**

* With its target collapsed an expression is written as its simplification is, and fails as that
  does. With its target marked it is written without a question, and as it is if the marker
  changes nothing. Without a reducible group all options leave it as it is, and nothing is asked.
* Every step of a trace has the lines that the expression before it is rendered with, and leads
  on to what the simplification of this expression leaves.
* A trace told by separate calls for these lines and for the simplification has the same steps
  and the same end. It asks twice where the trace asks once, about the same group. -/
theorem traceRun_renders :
    (∀ (f : Evaluator) (marker : Marker) (e : Expr),
      e.render f marker { collapse := true } = (e.simplify f).map (·.map Expr.text) ∧
        (e.render f marker { annotate := true }).asked = [] ∧
        e.render f .unmarked { annotate := true } = .pure (.ok e.text) ∧
        (e.hasReducible = false → ∀ options, e.render f marker options = .pure (.ok e.text))) ∧
      ∀ (ctx : Context) (source : String),
        let run := traceRun ctx source
        let held := (historyOf ctx source).held
        (historyOf ctx source).run = run ∧
          (∀ (k : Nat) (step : Step), run.steps[k]? = some step →
            ∃ e next text, held[k]? = some e ∧ held[k + 1]? = some next ∧
              run.asked[k]? = some text ∧ RendersStep ctx e next text step) ∧
          retoldRun ctx source = ⟨run.steps, run.askedSeparately, run.outcome⟩ := by
  refine ⟨fun f marker e => ⟨Expr.render_collapsed f marker e,
    Expr.asked_render_annotated f marker e, Expr.render_unmarked f e, fun h => ?_⟩,
    fun ctx source => ?_⟩
  · rw [Expr.hasReducible_eq_isSome_target?, Option.isSome_eq_false_iff, Option.isNone_iff_eq_none]
      at h
    exact Expr.render_of_target?_eq_none f marker h
  · simp only
    rw [← run_historyOf]
    cases hparse : Expr.parse source with
    | error d =>
        rw [historyOf, retoldRun, hparse]
        refine ⟨rfl, ?_, rfl⟩
        rintro k step ⟨⟩
    | ok e =>
        have he := Expr.readable_of_parse hparse
        rw [historyOf_of_parse hparse, retoldRun, hparse]
        exact ⟨rfl, fun k step => rendersStep_of_getElem? he,
          retoldFrom_eq ctx source ctx.maxSteps 0 he⟩

/-- The second step of a trace whose third evaluation fails. The two questions before that are
asked twice by separate calls, and the third one only once. -/
theorem traceRun_renders_failing :
    let ctx : Context := { evaluator := .lookup [("(a b)", "x"), ("(c d)", "y")] .echo }
    let source := "((a b) (c d))"
    let final := Expr.group [.atom "x"]
    let step : Step := ⟨"(x [(c d)])", "(x [y])"⟩
    (final.hasReducible = false ∧
      final.render .echo .tags ⟨true, true⟩ = .pure (.ok final.text)) ∧
    (traceRun ctx source).steps[1]? = some step ∧
      (∃ e next, (historyOf ctx source).held[1]? = some e ∧ RendersStep ctx e next "(c d)" step) ∧
      (traceRun ctx source).asked = ["(a b)", "(c d)", "(x y)"] ∧
      (retoldRun ctx source).asked = ["(a b)", "(a b)", "(c d)", "(c d)", "(x y)"] ∧
      (retoldRun ctx source).outcome = .error (.ofGroup "(x y)" (.notAtomic "(x y)")) := by
  intro ctx source final step
  obtain ⟨hlines, htraces⟩ := traceRun_renders
  have hfinal : final.hasReducible = false := by
    rw [Expr.hasReducible_eq_isSome_target?]
    rfl
  have hstep : (traceRun ctx source).steps[1]? = some step := by decide +kernel
  have hlength : (traceRun ctx source).steps.length = 2 := by decide +kernel
  have hasked : (traceRun ctx source).asked = ["(a b)", "(c d)", "(x y)"] := by decide +kernel
  have hfails : (traceRun ctx source).outcome =
      .error (.ofGroup "(x y)" (.notAtomic "(x y)")) := by decide +kernel
  obtain ⟨-, hsteps, hretold⟩ := htraces ctx source
  obtain ⟨e, next, text, he, -, htext, hrenders⟩ := hsteps 1 step hstep
  rw [hasked] at htext
  obtain rfl : text = "(c d)" := Option.some.inj htext.symm
  refine ⟨⟨hfinal, (hlines .echo .tags final).2.2.2 hfinal ⟨true, true⟩⟩, hstep,
    ⟨e, next, he, hrenders⟩, hasked, ?_, by rw [hretold, hfails]⟩
  rw [hretold, Run.askedSeparately, hlength, hasked]
  rfl

end Innermost
