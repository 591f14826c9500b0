import Innermost.Trace
import Innermost.Proofs.Reducing.Collapse
import Innermost.Proofs.Tracing.Rereading

/-!
What a trace holds between its steps.

* `historyFrom` is the simplification `runFrom` with a record of the expressions
  that it holds, the first one and the one after each step; without the record
  it is `runFrom` (`run_historyFrom`).
* `Stops`: the three ways in which a run ends. The stops for a line that does not
  read back, or not as something smaller, are not among them, because they do not
  happen (`historyFrom_step`).
* `history_induction`: what holds where a run stops and is inherited by a step
  from the rest holds of every run that starts at a readable expression.
* `head?_held`, `length_held`, `getLast?_held`: what is held begins with the
  expression at the start, goes on with one for each step, and ends with the answer.
* `forall_mem_held`: what every step hands on holds of all that is held, and the evaluator is
  asked about targets of what is held (`exists_mem_held_of_mem_asked`).
* `exists_held_of_getElem?_steps`: what holds of a step wherever it is taken holds of the
  steps of a run.
-/

namespace Innermost

open Innermost.Expr (Located)

/-! ### Runs with a record -/

/-- A run and the expressions that it held. -/
structure History where
  /-- The expression at the start and that after each step, in order. -/
  held : List Expr
  run : Run

/-- One step as it is shown: the reduction of the target `t` of `e` to an
atom. -/
def stepAt (ctx : Context) (e : Expr) (t : Located) (value : String) : Step :=
  ⟨e.textWith (ctx.marker .target t.node.text) t.path,
    e.textWith (ctx.marker .result value) t.path⟩

/-- The simplification `runFrom`, with a record of the expressions it holds. -/
def historyFrom (ctx : Context) (source : String) : (left taken : Nat) → Expr → History
  | left, taken, e =>
      match e.target? with
      | none => ⟨[e], .stopped (.ok e)⟩
      | some t =>
          match left with
          | 0 => ⟨[e], .stopped (.error (unfinished source taken))⟩
          | left + 1 =>
              let consulted := t.node.evaluate ctx.evaluator
              match consulted.answer with
              | .error failure =>
                  ⟨[e], .after [] consulted.asked (.stopped (.error failure))⟩
              | .ok value =>
                  let line := parenthesised (Reduction.apply ⟨t.path, value⟩ e).text
                  let told := Run.after [stepAt ctx e t value] consulted.asked
                  match Expr.parse line with
                  | .error d => ⟨[e], told (.stopped (.error (.inInput line d)))⟩
                  | .ok next =>
                      if next.nodeCount < e.nodeCount then
                        let rest := historyFrom ctx source left (taken + 1) next
                        ⟨e :: rest.held, told rest.run⟩
                      else ⟨[e], told (.stopped (.error (unfinished source (taken + 1))))⟩

/-- The history of a text that holds an expression; of any other text nothing is
held. -/
def historyOf (ctx : Context) (source : String) : History :=
  match Expr.parse source with
  | .error d => ⟨[], .stopped (.error (.inInput source d))⟩
  | .ok e => historyFrom ctx source ctx.maxSteps 0 e

/-- The record leaves the run as it is. -/
lemma run_historyFrom (ctx : Context) (source : String) (left taken : Nat) (e : Expr) :
    (historyFrom ctx source left taken e).run = runFrom ctx source left taken e := by
  induction left generalizing taken e with
  | zero =>
      rw [historyFrom, runFrom]
      cases e.target? <;> rfl
  | succ left ih =>
      rw [historyFrom, runFrom]
      cases e.target? with
      | none => rfl
      | some t =>
          simp only
          cases (t.node.evaluate ctx.evaluator).answer with
          | error failure => rfl
          | ok value =>
              simp only
              cases Expr.parse (parenthesised (Reduction.apply ⟨t.path, value⟩ e).text) with
              | error d => rfl
              | ok next =>
                  simp only
                  split_ifs
                  · simp only [ih, stepAt]
                  · rfl

lemma run_historyOf (ctx : Context) (source : String) :
    (historyOf ctx source).run = traceRun ctx source := by
  rw [historyOf, traceRun]
  cases Expr.parse source with
  | error d => rfl
  | ok e => exact run_historyFrom ..

lemma historyOf_of_parse {ctx : Context} {source : String} {e : Expr}
    (h : Expr.parse source = .ok e) :
    historyOf ctx source = historyFrom ctx source ctx.maxSteps 0 e := by
  simp only [historyOf, h]

/-! ### One turn -/

/-- The runs that end without a step: at an expression without a target, at the
limit, and at an evaluation that fails. -/
inductive Stops (ctx : Context) (source : String) : (left taken : Nat) → Expr → Run → Prop where
  | done {left taken : Nat} {e : Expr} (ht : e.target? = none) :
      Stops ctx source left taken e (.stopped (.ok e))
  | limit {taken : Nat} {e : Expr} {t : Located} (ht : e.target? = some t) :
      Stops ctx source 0 taken e (.stopped (.error (unfinished source taken)))
  | failed {left taken : Nat} {e : Expr} {t : Located} {failure : Failure}
      (ht : e.target? = some t) (hv : (t.node.evaluate ctx.evaluator).answer = .error failure) :
      Stops ctx source (left + 1) taken e
        (.after [] [t.node.text] (.stopped (.error failure)))

lemma Stops.steps_eq {ctx : Context} {source : String} {left taken : Nat} {e : Expr} {run : Run}
    (h : Stops ctx source left taken e run) : run.steps = [] := by
  cases h <;> rfl

section Turn

variable {ctx : Context} {source : String} {left taken : Nat} {e : Expr}

lemma Stops.historyFrom_eq {run : Run} (h : Stops ctx source left taken e run) :
    historyFrom ctx source left taken e = ⟨[e], run⟩ := by
  cases h with
  | done ht =>
      rw [historyFrom]
      simp only [ht]
  | limit ht =>
      rw [historyFrom]
      simp only [ht]
  | failed ht hv =>
      rw [historyFrom]
      simp only [ht, hv]
      rw [Expr.evaluate_of_isReducible _ (Expr.get?_of_target? ht).2]

/-- A step that is taken leads on: the line after it reads back as a smaller
expression. -/
lemma historyFrom_step {t : Located} {value : String} (he : e.Readable)
    (ht : e.target? = some t) (hv : (t.node.evaluate ctx.evaluator).answer = .ok value) :
    historyFrom ctx source (left + 1) taken e =
      let rest := historyFrom ctx source left (taken + 1)
        (e.replace t.path (.atom value)).regrouped
      ⟨e :: rest.held, .after [stepAt ctx e t value] [t.node.text] rest.run⟩ := by
  have hparse := he.parse_parenthesised ht (Expr.isWord_of_evaluate hv)
  have hlt := Expr.nodeCount_regrouped_lt ht value
  conv_lhs => rw [historyFrom]
  simp only [ht, hv, Reduction.apply, hparse, hlt, if_true]
  rw [Expr.evaluate_of_isReducible _ (Expr.get?_of_target? ht).2]

/-- A run stops where it is or goes on with a step. -/
lemma stops_or_step (ctx : Context) (source : String) (left taken : Nat) (e : Expr) :
    (∃ run, Stops ctx source left taken e run) ∨
      ∃ left' t value, left = left' + 1 ∧ e.target? = some t ∧
        (t.node.evaluate ctx.evaluator).answer = .ok value := by
  cases ht : e.target? with
  | none => exact .inl ⟨_, .done ht⟩
  | some t =>
      cases left with
      | zero => exact .inl ⟨_, .limit ht⟩
      | succ left =>
          cases hv : (t.node.evaluate ctx.evaluator).answer with
          | error failure => exact .inl ⟨_, .failed ht hv⟩
          | ok value => exact .inr ⟨left, t, value, rfl, rfl, hv⟩

end Turn

/-- **The induction principle of runs**: a property of histories holds of every
one that starts at a readable expression, once it holds where a run stops and is
inherited by a step from the rest of the run. -/
@[elab_as_elim]
theorem history_induction {ctx : Context} {source : String}
    {P : (left taken : Nat) → Expr → History → Prop}
    (stop : ∀ {left taken e run}, e.Readable → Stops ctx source left taken e run →
      P left taken e ⟨[e], run⟩)
    (step : ∀ {left taken e t value} {rest : History}, e.Readable → e.target? = some t →
      (t.node.evaluate ctx.evaluator).answer = .ok value →
      rest = historyFrom ctx source left (taken + 1)
        (e.replace t.path (.atom value)).regrouped →
      P left (taken + 1) (e.replace t.path (.atom value)).regrouped rest →
      P (left + 1) taken e
        ⟨e :: rest.held, .after [stepAt ctx e t value] [t.node.text] rest.run⟩)
    (left taken : Nat) {e : Expr} (he : e.Readable) :
    P left taken e (historyFrom ctx source left taken e) := by
  induction left generalizing taken e with
  | zero =>
      obtain ⟨run, hstop⟩ | ⟨left', _, _, hleft, -⟩ := stops_or_step ctx source 0 taken e
      · exact hstop.historyFrom_eq ▸ stop he hstop
      · exact absurd hleft (by simp)
  | succ left ih =>
      obtain ⟨run, hstop⟩ | ⟨left', t, value, hleft, ht, hv⟩ :=
        stops_or_step ctx source (left + 1) taken e
      · exact hstop.historyFrom_eq ▸ stop he hstop
      · have hnext := he.regrouped_replace ht (Expr.isWord_of_evaluate hv)
        exact historyFrom_step he ht hv ▸ step he ht hv rfl (ih (taken + 1) hnext)

section Held

variable {ctx : Context} {source : String} {left taken : Nat} {e x : Expr}

/-! ### What is held -/

lemma length_held (he : e.Readable) :
    (historyFrom ctx source left taken e).held.length =
      (historyFrom ctx source left taken e).run.steps.length + 1 := by
  refine history_induction (P := fun _ _ _ h => h.held.length = h.run.steps.length + 1)
    ?_ ?_ left taken he
  · intro _ _ _ run _ hstop
    rw [hstop.steps_eq]
    rfl
  · intro _ _ _ _ _ rest _ _ _ _ ih
    simp [Run.after, ih]

/-- What every step hands on holds of all that is held. -/
lemma forall_mem_held {I : Expr → Prop}
    (hI : ∀ {d : Expr} {t : Located} {value : String}, d.Readable → d.target? = some t →
      (t.node.evaluate ctx.evaluator).answer = .ok value → I d →
      I (d.replace t.path (.atom value)).regrouped)
    (he : e.Readable) (h : I e) : ∀ x ∈ (historyFrom ctx source left taken e).held, I x := by
  revert h
  refine history_induction (P := fun _ _ e h => I e → ∀ x ∈ h.held, I x) ?_ ?_ left taken he
  · intro _ _ e _ _ _ h x hx
    exact List.mem_singleton.mp hx ▸ h
  · intro _ _ e _ _ _ he ht hv _ ih h x hx
    rcases List.mem_cons.mp hx with rfl | hx
    · exact h
    · exact ih (hI he ht hv h) x hx

lemma readable_of_mem_held (he : e.Readable)
    (hx : x ∈ (historyFrom ctx source left taken e).held) : x.Readable :=
  forall_mem_held (fun hd ht hv _ => hd.regrouped_replace ht (Expr.isWord_of_evaluate hv))
    he he x hx

/-- What the evaluator is asked about are the targets of what is held. -/
lemma exists_mem_held_of_mem_asked (he : e.Readable) {text : String}
    (h : text ∈ (historyFrom ctx source left taken e).run.asked) :
    ∃ d ∈ (historyFrom ctx source left taken e).held, ∃ t, d.target? = some t ∧
      t.node.text = text := by
  revert h
  refine history_induction (P := fun _ _ _ h => text ∈ h.run.asked →
    ∃ d ∈ h.held, ∃ t, d.target? = some t ∧ t.node.text = text) ?_ ?_ left taken he
  · intro _ _ e _ _ hstop h
    cases hstop with
    | done ht => cases h
    | limit ht => cases h
    | @failed _ _ _ t _ ht hv =>
        exact ⟨e, List.mem_singleton_self e, t, ht, (List.mem_singleton.mp h).symm⟩
  · intro _ _ e t _ rest _ ht _ _ ih h
    rcases List.mem_cons.mp h with rfl | h
    · exact ⟨e, List.mem_cons_self, t, ht, rfl⟩
    · obtain ⟨d, hd, hasked⟩ := ih h
      exact ⟨d, .tail _ hd, hasked⟩

/-- What is held first is the expression at the start. -/
lemma head?_held (he : e.Readable) :
    (historyFrom ctx source left taken e).held.head? = some e :=
  history_induction (P := fun _ _ e h => h.held.head? = some e) (fun _ _ => rfl)
    (fun _ _ _ _ _ => rfl) left taken he

/-- What is held last is the answer. -/
lemma getLast?_held (he : e.Readable) {answer : Expr}
    (h : (historyFrom ctx source left taken e).run.outcome = .ok answer) :
    (historyFrom ctx source left taken e).held.getLast? = some answer := by
  revert h
  refine history_induction (P := fun _ _ _ h => h.run.outcome = .ok answer →
    h.held.getLast? = some answer) ?_ ?_ left taken he
  · intro _ _ e _ _ hstop h
    cases hstop with
    | done ht => exact congrArg some (Except.ok.inj h)
    | limit ht => cases h
    | failed ht hv => cases h
  · intro _ _ e _ _ rest _ _ _ _ ih h
    rw [List.getLast?_cons, ih h]
    rfl

/-- What holds of every step that can be taken at a readable expression holds of the steps of a
run: the `k`-th of them leads from the `k`-th expression that is held to the next one, and
answers the `k`-th question. -/
theorem exists_held_of_getElem?_steps {Q : Expr → Expr → String → Step → Prop}
    (hQ : ∀ {d : Expr} {t : Located} {value : String}, d.Readable → d.target? = some t →
      (t.node.evaluate ctx.evaluator).answer = .ok value →
      Q d (d.replace t.path (.atom value)).regrouped t.node.text (stepAt ctx d t value))
    (he : e.Readable) {k : Nat} {step : Step}
    (hstep : (historyFrom ctx source left taken e).run.steps[k]? = some step) :
    ∃ d next text, (historyFrom ctx source left taken e).held[k]? = some d ∧
      (historyFrom ctx source left taken e).held[k + 1]? = some next ∧
      (historyFrom ctx source left taken e).run.asked[k]? = some text ∧ Q d next text step := by
  revert k hstep
  refine history_induction (P := fun _ _ _ h => ∀ {k}, h.run.steps[k]? = some step →
    ∃ d next text, h.held[k]? = some d ∧ h.held[k + 1]? = some next ∧
      h.run.asked[k]? = some text ∧ Q d next text step) ?_ ?_ left taken he
  · intro _ _ _ _ _ hstop k hstep
    simp [hstop.steps_eq] at hstep
  · intro _ _ e t value rest he ht hv hrest ih k hstep
    cases k with
    | zero =>
        obtain rfl : stepAt ctx e t value = step := Option.some.inj hstep
        refine ⟨e, (e.replace t.path (.atom value)).regrouped, t.node.text, rfl, ?_, rfl,
          hQ he ht hv⟩
        have hnext := he.regrouped_replace ht (Expr.isWord_of_evaluate hv)
        rw [List.getElem?_cons_succ, ← List.head?_eq_getElem?, hrest]
        exact head?_held hnext
    | succ k => exact ih hstep

end Held

end Innermost
