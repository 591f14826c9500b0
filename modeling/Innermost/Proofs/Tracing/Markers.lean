import Innermost.Proofs.Rendering.Marking
import Innermost.Proofs.Tracing.History

/-!
A marker decorates the lines of a trace, and that is all it does.

* `Exchange`: a step without its marks. A marker shows it as a step (`Exchange.shown`).
* `Context.marked`: the same surroundings with another marker. A run stops there where it
  stopped before (`Stops.marked`), and takes the same step otherwise, shown by the other
  marker (`exists_exchange`).
* `undecorated_historyFrom`: so there is one list of exchanges behind a run, whatever the
  marker is, and what a run holds, asks and comes to are the same for all of them.
* `traceRun_marked` says so of the traces of texts.
-/

namespace Innermost

open Innermost.Expr (Located)

/-! ### Steps without marks -/

/-- A piece of a line that is exchanged for another. -/
structure Exchange where
  /-- What stands before the piece. -/
  before : String
  /-- The group that is taken out. -/
  target : String
  /-- The atom that is put in its place. -/
  value : String
  /-- What stands after the piece. -/
  after : String

/-- The step that shows an exchange, decorated by a marker. -/
def Exchange.shown (marker : Marker) (x : Exchange) : Step :=
  ⟨x.before ++ marker .target x.target ++ x.after, x.before ++ marker .result x.value ++ x.after⟩

/-- Whether an exchange puts in place of the target of `e` what the evaluator answers
about it. Without marks it shows the text of `e`, and then that of `e` with the target
reduced. -/
def Exchange.ReducesTarget (f : Evaluator) (e : Expr) (x : Exchange) : Prop :=
  ∃ t, e.target? = some t ∧ x.target = t.node.text ∧ f x.target = .ok x.value ∧
    x.shown .unmarked = ⟨e.text, (Reduction.apply ⟨t.path, x.value⟩ e).text⟩

/-- The surroundings of a simplification, with another marker. -/
def Context.marked (ctx : Context) (marker : Marker) : Context := { ctx with marker := marker }

section Run

variable {ctx : Context} {source : String} {left taken : Nat} {e : Expr}

/-- A step is an exchange that is shown, the same one for every marker. -/
lemma exists_exchange {t : Located} {value : String} (ht : e.target? = some t)
    (hv : (t.node.evaluate ctx.evaluator).answer = .ok value) :
    ∃ x : Exchange, (∀ marker, stepAt (ctx.marked marker) e t value = x.shown marker) ∧
      x.ReducesTarget ctx.evaluator e := by
  obtain ⟨hget, hr⟩ := Expr.get?_of_target? ht
  obtain ⟨pre, suf, hpiece⟩ := Expr.exists_textWith_eq hget
  have hanswer : ctx.evaluator t.node.text = .ok value := by
    rw [Expr.evaluate_of_isReducible _ hr] at hv
    exact (acceptAnswer_eq_ok_iff.mp hv).1
  refine ⟨⟨pre, t.node.text, value, suf⟩, fun marker => ?_, t, ht, rfl, hanswer, ?_⟩
  · rw [stepAt, hpiece, hpiece]
    rfl
  · have hbefore : pre ++ t.node.text ++ suf = e.text := by
      rw [← hpiece, Expr.textWith_text_of_get? hget]
    have hafter : pre ++ value ++ suf = (e.replace t.path (.atom value)).text := by
      rw [← hpiece, ← Expr.textWith_text, Expr.text_atom]
    rw [Reduction.apply, ← hbefore, ← hafter]
    rfl

/-- A run stops where it stops with another marker. -/
lemma Stops.marked {run : Run} (h : Stops ctx source left taken e run) (marker : Marker) :
    Stops (ctx.marked marker) source left taken e run := by
  cases h with
  | done ht => exact .done ht
  | limit ht => exact .limit ht
  | failed ht hv => exact .failed ht hv

/-- What is behind the histories of `e` for all markers: the expressions `held`, the
exchanges that are shown, and the questions and the outcome of the run. -/
structure Undecorated (ctx : Context) (source : String) (left taken : Nat) (e : Expr)
    (held : List Expr) (exchanges : List Exchange) (asked : List String)
    (outcome : Except Failure Expr) : Prop where
  /-- Every marker shows the exchanges, and changes nothing else. -/
  historyFrom_eq : ∀ marker, historyFrom (ctx.marked marker) source left taken e =
    ⟨held, exchanges.map (·.shown marker), asked, outcome⟩
  /-- Each exchange reduces the target of what is held before it. -/
  reducesTarget : ∀ (k : Nat) (x : Exchange), exchanges[k]? = some x →
    ∃ d, held[k]? = some d ∧ x.ReducesTarget ctx.evaluator d

lemma undecorated_of_stops {run : Run} (h : Stops ctx source left taken e run) :
    Undecorated ctx source left taken e [e] [] run.asked run.outcome := by
  refine ⟨fun marker => ?_, by simp⟩
  rw [(h.marked marker).historyFrom_eq, List.map_nil, ← h.steps_eq]

/-- A step adds one exchange to those behind the rest of the run. -/
lemma Undecorated.step {t : Located} {value : String} {held : List Expr}
    {exchanges : List Exchange} {asked : List String} {outcome : Except Failure Expr}
    (he : e.Readable) (ht : e.target? = some t)
    (hv : (t.node.evaluate ctx.evaluator).answer = .ok value)
    (h : Undecorated ctx source left (taken + 1) (e.replace t.path (.atom value)).regrouped
      held exchanges asked outcome) :
    ∃ x, Undecorated ctx source (left + 1) taken e (e :: held) (x :: exchanges)
      (t.node.text :: asked) outcome := by
  obtain ⟨x, hshown, hx⟩ := exists_exchange ht hv
  refine ⟨x, fun marker => ?_, fun k y hy => ?_⟩
  · have hv' : (t.node.evaluate (ctx.marked marker).evaluator).answer = .ok value := hv
    rw [historyFrom_step he ht hv', h.historyFrom_eq, hshown]
    rfl
  · cases k with
    | zero => exact ⟨e, rfl, Option.some.inj hy ▸ hx⟩
    | succ k => exact h.reducesTarget k y hy

/-- **Behind every run there is one list of exchanges**, whatever the marker is. -/
theorem undecorated_historyFrom (ctx : Context) (source : String) (left taken : Nat)
    (he : e.Readable) :
    ∃ exchanges, Undecorated ctx source left taken e
      (historyFrom ctx source left taken e).held exchanges
      (historyFrom ctx source left taken e).run.asked
      (historyFrom ctx source left taken e).run.outcome := by
  refine history_induction (P := fun left taken e h => ∃ exchanges,
    Undecorated ctx source left taken e h.held exchanges h.run.asked h.run.outcome) ?_ ?_
    left taken he
  · exact fun _ hstop => ⟨[], undecorated_of_stops hstop⟩
  · intro _ _ _ _ _ _ he ht hv _ ⟨exchanges, hrest⟩
    obtain ⟨x, hx⟩ := hrest.step he ht hv
    exact ⟨x :: exchanges, hx⟩

end Run

/-! ### Traces of texts -/

/-- **A marker never influences the simplification.** The expressions that are held, the
exchanges, the questions and the outcome are the same for all markers; what a marker
makes of an exchange is shown in the steps and goes nowhere else. Each exchange reduces
the target of the expression that is held before it, which without marks is what the
step shows. -/
theorem traceRun_marked (f : Evaluator) (maxSteps : Nat) (source : String) :
    ∃ (held : List Expr) (exchanges : List Exchange) (asked : List String)
        (outcome : Except Failure Expr),
      (∀ marker : Marker,
        traceRun ⟨f, marker, maxSteps⟩ source =
            ⟨exchanges.map (·.shown marker), asked, outcome⟩ ∧
          (historyOf ⟨f, marker, maxSteps⟩ source).held = held) ∧
      ∀ (k : Nat) (x : Exchange), exchanges[k]? = some x →
        ∃ e, held[k]? = some e ∧ x.ReducesTarget f e := by
  cases hparse : Expr.parse source with
  | error d =>
      refine ⟨[], [], [], .error (.inInput source d), fun marker => ⟨?_, ?_⟩, by simp⟩
      · rw [traceRun, hparse]
        rfl
      · rw [historyOf, hparse]
  | ok e =>
      have he := Expr.readable_of_parse hparse
      obtain ⟨exchanges, hhistory, hreduces⟩ :=
        undecorated_historyFrom ⟨f, .unmarked, maxSteps⟩ source maxSteps 0 he
      let history := historyFrom ⟨f, .unmarked, maxSteps⟩ source maxSteps 0 e
      refine ⟨history.held, exchanges, history.run.asked, history.run.outcome, fun marker => ?_,
        hreduces⟩
      have hmarked : historyFrom ⟨f, marker, maxSteps⟩ source maxSteps 0 e =
          ⟨history.held, exchanges.map (·.shown marker), history.run.asked, history.run.outcome⟩ :=
        hhistory marker
      rw [← run_historyOf, historyOf_of_parse hparse, hmarked]
      exact ⟨rfl, rfl⟩

/-- A marker whose decorations would be read as other expressions shows them in the
second step, which is the same exchange as without marks. -/
theorem traceRun_marked_parentheses :
    let marker : Marker := fun _ text => ") (" ++ text
    let run := traceRun ⟨.concat, marker, 2⟩ "((a b) c)"
    run.outcome = .ok (.group [.atom "abc"]) ∧ run.asked = ["(a b)", "(ab c)"] ∧
      run.steps[1]? = some ⟨") ((ab c)", ") (abc"⟩ ∧
      ∃ (e : Expr) (x : Exchange), run.steps[1]? = some (x.shown marker) ∧
        (traceRun ⟨.concat, .unmarked, 2⟩ "((a b) c)").steps[1]? = some (x.shown .unmarked) ∧
        x.ReducesTarget .concat e := by
  intro marker run
  obtain ⟨held, exchanges, asked, outcome, hrun, hreduces⟩ :=
    traceRun_marked .concat 2 "((a b) c)"
  have hmarked : run = ⟨exchanges.map (·.shown marker), asked, outcome⟩ := (hrun marker).1
  have hplain := (hrun .unmarked).1
  have houtcome : outcome = .ok (.group [.atom "abc"]) := by
    have h := congrArg Run.outcome hplain
    exact h.symm.trans (by decide +kernel)
  have hasked : asked = ["(a b)", "(ab c)"] := by
    have h := congrArg Run.asked hplain
    exact h.symm.trans (by decide +kernel)
  have hstep : run.steps[1]? = some ⟨") ((ab c)", ") (abc"⟩ := by decide +kernel
  obtain ⟨x, hx⟩ : ∃ x, exchanges[1]? = some x := by
    rw [hmarked, List.getElem?_map] at hstep
    obtain ⟨x, hx, -⟩ := Option.map_eq_some_iff.mp hstep
    exact ⟨x, hx⟩
  obtain ⟨e, -, he⟩ := hreduces 1 x hx
  refine ⟨by rw [hmarked, houtcome], by rw [hmarked, hasked], hstep, e, x, ?_, ?_, he⟩
  · rw [hmarked, List.getElem?_map, hx]
    rfl
  · rw [hplain, List.getElem?_map, hx]
    rfl

end Innermost
