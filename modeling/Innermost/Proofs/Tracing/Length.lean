import Innermost.Proofs.Reducing.Live
import Innermost.Proofs.Tracing.History

/-!
The length of a trace is decided by the shape of the expression: it is the number of
live groups, whatever atoms the evaluator answers with.

* `liveCount_regrouped`: parentheses around a bare atom are not a live group, so
  reading the line after a step back leaves the number as the reduction left it.
* `TakesAll`: what a run does whose evaluations do not fail. Every step takes one
  live group away (`TakesAll.step`), and at an expression without a target there is
  none left (`takesAll_of_stops`).
* `length_traceRun` puts this together for the trace of a text.
-/

namespace Innermost

open Innermost.Expr (Located)

namespace Expr

lemma liveCount_regrouped (e : Expr) : e.regrouped.liveCount = e.liveCount := by
  cases e with
  | group es => rfl
  | atom s =>
      rw [regrouped, liveCount_eq_zero_of_target?_eq_none (target?_group_atom s), liveCount_atom]

end Expr

/-- What a run does from the expression `e` when `taken` steps have been taken and
`left` more are allowed. -/
structure TakesAll (source : String) (left taken : Nat) (e : Expr) (run : Run) : Prop where
  /-- It takes a step for each live group, as long as it may. -/
  length_steps : run.steps.length = min left e.liveCount
  /-- It asks one question for each step. -/
  length_asked : run.asked.length = run.steps.length
  /-- If it may take all the steps, there is no live group left. -/
  finished : e.liveCount ≤ left → ∃ answer, run.outcome = .ok answer ∧ answer.liveCount = 0
  /-- Otherwise it stops at the limit. -/
  atLimit : left < e.liveCount → run.outcome = .error (unfinished source (taken + left))

section Run

variable {ctx : Context} {source : String} {left taken : Nat} {e : Expr}

/-- Where an evaluation does not fail, a run stops because it is done or at its
limit. -/
lemma takesAll_of_stops {run : Run} (h : Stops ctx source left taken e run)
    (hcalls : ∀ text ∈ run.asked, ∃ value, ctx.evaluator text = .ok value ∧ isAtomic value = true) :
    TakesAll source left taken e run := by
  cases h with
  | done ht =>
      have hzero := Expr.liveCount_eq_zero_of_target?_eq_none ht
      exact ⟨by simp [Run.stopped, hzero], rfl, fun _ => ⟨e, rfl, hzero⟩, fun hlt => by omega⟩
  | @limit _ _ t ht =>
      have hcount := Expr.liveCount_replace_target ht ""
      exact ⟨by simp [Run.stopped], rfl, fun hle => by omega, fun _ => rfl⟩
  | failed ht hv =>
      obtain ⟨value, hvalue, hatomic⟩ := hcalls _ (List.mem_singleton_self _)
      rw [Expr.evaluate_of_isReducible _ (Expr.get?_of_target? ht).2, hvalue, acceptAnswer,
        if_pos hatomic] at hv
      cases hv

/-- A step takes one live group away, so all are taken if the rest of the run takes
the others. -/
lemma TakesAll.step {t : Located} {value : String} {rest : Run} (ht : e.target? = some t)
    (h : TakesAll source left (taken + 1) (e.replace t.path (.atom value)).regrouped rest) :
    TakesAll source (left + 1) taken e
      (.after [stepAt ctx e t value] [t.node.text] rest) := by
  obtain ⟨hsteps, hasked, hfinished, hlimit⟩ := h
  have hcount := Expr.liveCount_replace_target ht value
  rw [Expr.liveCount_regrouped] at hsteps hfinished hlimit
  refine ⟨?_, ?_, fun hle => hfinished (by omega), fun hlt => ?_⟩
  · simp only [Run.after, List.length_append, List.length_singleton]
    rw [hsteps, ← hcount, Nat.add_min_add_right, Nat.add_comm]
  · simp only [Run.after, List.length_append, List.length_singleton, hasked]
  · rw [Run.after, hlimit (by omega), Nat.add_right_comm, Nat.add_assoc]

/-- **Every run whose evaluations do not fail takes all live groups away**, or as
many as it may. -/
theorem takesAll_historyFrom (he : e.Readable)
    (hcalls : ∀ text ∈ (historyFrom ctx source left taken e).run.asked,
      ∃ value, ctx.evaluator text = .ok value ∧ isAtomic value = true) :
    TakesAll source left taken e (historyFrom ctx source left taken e).run := by
  revert hcalls
  refine history_induction (P := fun left taken e h =>
    (∀ text ∈ h.run.asked, ∃ value, ctx.evaluator text = .ok value ∧ isAtomic value = true) →
      TakesAll source left taken e h.run) ?_ ?_ left taken he
  · exact fun _ hstop hcalls => takesAll_of_stops hstop hcalls
  · intro _ _ _ _ _ rest _ ht _ _ ih hcalls
    exact (ih fun text htext => hcalls text (List.mem_append_right _ htext)).step ht

end Run

/-! ### Traces of texts -/

/-- The trace of a text takes all live groups away, if no evaluation fails. -/
lemma takesAll_traceRun {ctx : Context} {source : String} {e : Expr}
    (hparse : Expr.parse source = .ok e)
    (hcalls : ∀ text ∈ (traceRun ctx source).asked,
      ∃ value, ctx.evaluator text = .ok value ∧ isAtomic value = true) :
    TakesAll source ctx.maxSteps 0 e (traceRun ctx source) := by
  rw [← run_historyOf, historyOf_of_parse hparse] at hcalls ⊢
  exact takesAll_historyFrom (Expr.readable_of_parse hparse) hcalls

/-- A run that comes to an end is shown up to its last step. -/
lemma trace_of_outcome {ctx : Context} {source : String} {answer : Expr}
    (h : (traceRun ctx source).outcome = .ok answer) :
    trace ctx source = .ok ⟨(traceRun ctx source).steps.dropLast, answer⟩ := by
  rw [trace, Run.trace, h]
  rfl

/-- **The length of a trace is decided by the shape of the expression.** If a text is
read as `e`, and every answer that the evaluator gives is an atom, whichever, then

* the simplification comes to an end exactly if no more steps are allowed than
  there are live groups in `e`;
* if it does, it takes one step and asks one question for each of them, the trace
  shows every step but the last, and the answer has no live group left;
* if it does not, it fails after as many steps as are allowed. -/
theorem length_traceRun (ctx : Context) {source : String} {e : Expr}
    (hparse : Expr.parse source = .ok e)
    (hcalls : ∀ text ∈ (traceRun ctx source).asked,
      ∃ value, ctx.evaluator text = .ok value ∧ isAtomic value = true) :
    let run := traceRun ctx source
    ((∃ answer, run.outcome = .ok answer) ↔ e.liveCount ≤ ctx.maxSteps) ∧
      (e.liveCount ≤ ctx.maxSteps →
        run.steps.length = e.liveCount ∧ run.asked.length = e.liveCount ∧
          ∃ shown answer, trace ctx source = .ok ⟨shown, answer⟩ ∧
            shown.length = e.liveCount - 1 ∧ run.outcome = .ok answer ∧ answer.liveCount = 0) ∧
      (ctx.maxSteps < e.liveCount →
        run.steps.length = ctx.maxSteps ∧ run.asked.length = ctx.maxSteps ∧
          run.outcome = .error ⟨.input, source,
            ⟨.reduction (.unfinished ctx.maxSteps), [⟨0, source.utf8ByteSize⟩]⟩⟩) := by
  intro run
  obtain ⟨hsteps, hasked, hfinished, hlimit⟩ := takesAll_traceRun hparse hcalls
  rw [Nat.zero_add] at hlimit
  refine ⟨⟨fun ⟨answer, hanswer⟩ => ?_, fun hle => ?_⟩, fun hle => ?_, fun hlt => ?_⟩
  · by_contra hlt
    rw [hlimit (Nat.lt_of_not_le hlt)] at hanswer
    cases hanswer
  · obtain ⟨answer, hanswer, -⟩ := hfinished hle
    exact ⟨answer, hanswer⟩
  · obtain ⟨answer, hanswer, hlive⟩ := hfinished hle
    rw [Nat.min_eq_right hle] at hsteps
    exact ⟨hsteps, hasked.trans hsteps, run.steps.dropLast, answer, trace_of_outcome hanswer,
      by rw [List.length_dropLast, hsteps], hanswer, hlive⟩
  · rw [Nat.min_eq_left hlt.le] at hsteps
    exact ⟨hsteps, hasked.trans hsteps, hlimit hlt⟩

/-- The single-child group keeps the group around it from being reduced, and three
steps are just enough for the others. -/
theorem length_traceRun_blocked :
    let ctx : Context := { evaluator := .const "x", maxSteps := 3 }
    let source := "((a b) (c) ((d e) f))"
    let e := Expr.group [.group [.atom "a", .atom "b"], .group [.atom "c"],
      .group [.group [.atom "d", .atom "e"], .atom "f"]]
    Expr.parse source = .ok e ∧ e.liveCount = 3 ∧
      (∀ text ∈ (traceRun ctx source).asked,
        ∃ value, ctx.evaluator text = .ok value ∧ isAtomic value = true) ∧
      (traceRun ctx source).steps.length = 3 ∧
      ∃ shown answer, trace ctx source = .ok ⟨shown, answer⟩ ∧ shown.length = 2 := by
  intro ctx source e
  have hparse : Expr.parse source = .ok e := by decide +kernel
  have hcount : e.liveCount = 3 := by
    rw [Expr.liveCount, Expr.preOrder_eq_nodes]
    decide +kernel
  have hcalls : ∀ text ∈ (traceRun ctx source).asked,
      ∃ value, ctx.evaluator text = .ok value ∧ isAtomic value = true :=
    fun _ _ => ⟨"x", rfl, by decide +kernel⟩
  obtain ⟨hsteps, -, shown, answer, htrace, hshown, -, -⟩ :=
    (length_traceRun ctx hparse hcalls).2.1 hcount.le
  rw [hcount] at hsteps hshown
  exact ⟨hparse, hcount, hcalls, hsteps, shown, answer, htrace, hshown⟩

end Innermost
