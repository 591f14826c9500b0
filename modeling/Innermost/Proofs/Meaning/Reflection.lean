import Innermost.Proofs.Literal.Restoration
import Innermost.Proofs.Meaning.Preservation
import Innermost.Proofs.Reducing.Paths

/-!
What a trace with the literal evaluator says of the value of the text it began with.

* `means_of_replace`: if an expression has a value after a step, it has it before the step,
  as long as no group stands directly behind an operand. After the step the sign of a
  negative literal may be read as an operation on that operand, which the group could not
  be.
* `means_historyFrom`: by this the value of the answer is handed back from one line to the
  line before it, up to the first one.
* `trace_reflects_value` puts this together for the trace of a text: the text has the value
  of its answer exactly if none of its groups stands directly behind an operand.
-/

namespace Innermost

open Innermost.Expr (Located)

namespace Expr

/-! ### One step -/

section Step

variable {e : Expr} {t : Located} {value : String} {v w : Value}

/-- What the target is answered with is the literal of its value, and nothing inside the
target is a parenthesis. -/
lemma exists_value_of_evaluate (he : e.Legible) (ht : e.target? = some t)
    (hv : (t.node.evaluate .literal).answer = .ok value) :
    ∃ (es : List Expr) (w : Value), t.node = .group es ∧ value = w.text ∧
      Means (bracketed (lexemesAll es)) w ∧ ∀ l ∈ lexemesAll es, l.IsPlain := by
  obtain ⟨hget, hr⟩ := get?_of_target? ht
  have hlegible := he.of_get? hget
  rw [evaluate_of_isReducible _ hr] at hv
  obtain ⟨w, hw, rfl⟩ := map_eq_ok (acceptAnswer_eq_ok_iff.mp hv).1
  have hmeans := hlegible.evaluate_text_iff.mp hw
  cases hnode : t.node with
  | atom s => simp [hnode, isReducible, isDeepest] at hr
  | group es =>
      rw [hnode] at hr hlegible hmeans
      have hbalanced : (group es).Balanced := hmeans.balance
      rw [lexemes_group] at hmeans
      exact ⟨es, w, rfl, rfl, hmeans,
        hbalanced.isPlain_of_all_isAtom (legible_group_iff.mp hlegible)
          (isReducible_group_iff.mp hr).1⟩

/-- Parentheses around a bare atom separate nothing that they join. -/
lemma separated_regrouped (h : Separated e.lexemes) : Separated e.regrouped.lexemes := by
  cases e with
  | group es => exact h
  | atom s =>
      rw [regrouped, lexemes_group, lexemesAll_cons, lexemesAll_nil, List.append_nil]
      exact h.enclosed

/-- No group comes to stand behind an operand by a step. -/
lemma separated_regrouped_replace (he : e.Legible) (ht : e.target? = some t)
    (hv : (t.node.evaluate .literal).answer = .ok value) (hsep : Separated e.lexemes) :
    Separated (e.replace t.path (.atom value)).regrouped.lexemes := by
  obtain ⟨es, w, hnode, rfl, -, -⟩ := exists_value_of_evaluate he ht hv
  obtain ⟨pre, suf, hlexemes, hreplace⟩ := exists_lexemes_replace (get?_of_target? ht).1
  rw [hlexemes, hnode, lexemes_group] at hsep
  refine separated_regrouped ?_
  rw [hreplace, lexemes_atom]
  exact hsep.replace w

/-- An expression that has a target is no atom. -/
lemma isAtom_eq_false_of_target? (ht : e.target? = some t) : e.isAtom = false := by
  cases e with
  | atom s =>
      rw [target?] at ht
      cases ht
  | group es => rfl

/-- An atom that is left alone has been put there. -/
lemma eq_of_regrouped_replace {s : String} (ht : e.target? = some t)
    (h : (e.replace t.path (.atom value)).regrouped = .group [.atom s]) : value = s := by
  have hget := get?_replace (get?_of_target? ht).1 (.atom value)
  cases hreplace : e.replace t.path (.atom value) with
  | atom s' =>
      rw [hreplace, regrouped] at h
      cases h
      cases eq_atom_of_replace (isAtom_eq_false_of_target? ht) hreplace
      rfl
  | group es =>
      rw [hreplace, regrouped] at h
      cases h
      rw [hreplace] at hget
      generalize t.path = p at hget
      cases p with
      | nil => cases hget
      | cons i p =>
          cases i with
          | succ i => cases hget
          | zero =>
              cases p with
              | nil =>
                  cases hget
                  rfl
              | cons j p => cases hget

/-- A bare literal has the value that it denotes. -/
lemma means_atom_text (v : Value) : Means (atom v.text).lexemes v := by
  rw [lexemes_atom, ← evaluate_eq_ok_iff]
  exact evaluate_text v

/-- **What has a value after a step has it before the step**, if no group stands directly
behind an operand. -/
theorem means_of_replace (he : e.Legible) (ht : e.target? = some t)
    (hvalue : (t.node.evaluate .literal).answer = .ok value) (hsep : Separated e.lexemes)
    (hv : Means (e.replace t.path (.atom value)).regrouped.lexemes v) : Means e.lexemes v := by
  obtain ⟨es, w, hnode, rfl, hw, hplain⟩ := exists_value_of_evaluate he ht hvalue
  obtain ⟨pre, suf, hlexemes, hreplace⟩ := exists_lexemes_replace (get?_of_target? ht).1
  rw [hlexemes, hnode, lexemes_group] at hsep ⊢
  have hstep : Means (e.replace t.path (.atom w.text)).lexemes v := by
    cases hnext : e.replace t.path (.atom w.text) with
    | group ds =>
        rw [hnext] at hv
        exact hv
    | atom s =>
        cases eq_atom_of_replace (isAtom_eq_false_of_target? ht) hnext
        rw [hnext] at hv
        rw [hv.unique (means_regrouped (means_atom_text w))]
        exact means_atom_text w
  rw [hreplace, lexemes_atom] at hstep
  exact hstep.restore hw hplain hsep.endsOperand_eq_false

end Step

end Expr

/-! ### A whole run -/

section Run

variable {marker : Marker} {maxSteps left taken : Nat} {source : String} {e : Expr} {v : Value}

/-- An answer of one atom is what the run began with, or it is the literal of a value. -/
lemma eq_or_exists_value_of_outcome (he : e.Readable) {s : String}
    (h : (historyFrom ⟨.literal, marker, maxSteps⟩ source left taken e).run.outcome =
      .ok (.group [.atom s])) : e = .group [.atom s] ∨ ∃ v : Value, v.text = s := by
  revert h
  refine history_induction (P := fun _ _ e h => h.run.outcome = .ok (.group [.atom s]) →
    e = .group [.atom s] ∨ ∃ v : Value, v.text = s) ?_ ?_ left taken he
  · intro _ _ e _ _ hstop h
    cases hstop with
    | done ht => exact .inl (Except.ok.inj h)
    | limit ht => cases h
    | failed ht hv => cases h
  · intro _ _ e t value rest he ht hv _ ih h
    obtain hnext | hvalue := ih h
    · obtain ⟨-, w, -, rfl, -, -⟩ := Expr.exists_value_of_evaluate he.legible ht hv
      exact .inr ⟨w, Expr.eq_of_regrouped_replace ht hnext⟩
    · exact .inr hvalue

/-- **The value of the answer is handed back** from each line to the one before it. -/
theorem means_historyFrom (he : e.Readable)
    (h : (historyFrom ⟨.literal, marker, maxSteps⟩ source left taken e).run.outcome =
      .ok (soleAnswer v)) (hsep : Separated e.lexemes) : Means e.lexemes v := by
  revert h hsep
  refine history_induction (P := fun _ _ e h => h.run.outcome = .ok (soleAnswer v) →
    Separated e.lexemes → Means e.lexemes v) ?_ ?_ left taken he
  · intro _ _ e _ _ hstop h _
    cases hstop with
    | done ht =>
        rw [Except.ok.inj h]
        exact Expr.means_regrouped (Expr.means_atom_text v)
    | limit ht => cases h
    | failed ht hv => cases h
  · intro _ _ e t value rest he ht hv _ ih h hsep
    exact Expr.means_of_replace he.legible ht hv hsep
      (ih h (Expr.separated_regrouped_replace he.legible ht hv hsep))

end Run

/-! ### Traces of texts -/

/-- An expression of one atom is not simplified. -/
lemma steps_historyFrom_group_atom (ctx : Context) (source : String) (left taken : Nat)
    (s : String) : (historyFrom ctx source left taken (.group [.atom s])).run.steps = [] := by
  rw [(Stops.done (Expr.target?_group_atom s)).historyFrom_eq]
  rfl

/-- **A trace that comes down to one value tells the value of the text**, if it takes a step
and the text has a value. The text has one exactly if no `(` in it stands directly behind
an operand. -/
theorem trace_reflects_value (marker : Marker) (maxSteps : Nat) {source s : String}
    (hanswer : (traceRun ⟨.literal, marker, maxSteps⟩ source).outcome = .ok (.group [.atom s]))
    (hsteps : (traceRun ⟨.literal, marker, maxSteps⟩ source).steps ≠ []) :
    ((∃ v, evaluate source = .ok v) ↔ Separated (lexemes source.toList)) ∧
      ∀ v, evaluate source = .ok v → v.text = s := by
  cases hparse : Expr.parse source with
  | error d =>
      rw [traceRun, hparse] at hanswer
      cases hanswer
  | ok e =>
      have he := Expr.readable_of_parse hparse
      rw [← run_historyOf, historyOf_of_parse hparse] at hanswer hsteps
      obtain rfl | ⟨w, rfl⟩ := eq_or_exists_value_of_outcome he hanswer
      · exact absurd (steps_historyFrom_group_atom _ source maxSteps 0 s) hsteps
      · have hmeans (hsep : Separated (lexemes source.toList)) : evaluate source = .ok w := by
          rw [Expr.evaluate_eq_ok_iff_of_parse hparse]
          exact means_historyFrom he hanswer (Expr.lexemes_of_parse hparse ▸ hsep)
        have hsep {v : Value} (hv : evaluate source = .ok v) : Separated (lexemes source.toList) :=
          (evaluate_eq_ok_iff.mp hv).separated
        refine ⟨⟨?_, fun h => ⟨w, hmeans h⟩⟩, fun v hv => ?_⟩
        · rintro ⟨v, hv⟩
          exact hsep hv
        · cases hv.symm.trans (hmeans (hsep hv))
          rfl

/-- A negative value comes to stand behind a minus sign. -/
theorem trace_reflects_value_negative :
    let source := "(1 - (0 - 2))"
    let run := traceRun {} source
    run.outcome = .ok (.group [.atom "3"]) ∧ run.steps ≠ [] ∧
      ∃ v, evaluate source = .ok v ∧ v.text = "3" := by
  intro source run
  have hanswer : run.outcome = .ok (.group [.atom "3"]) := by decide +kernel
  have hsteps : run.steps ≠ [] := by decide +kernel
  have hsep : Separated (lexemes source.toList) := by decide +kernel
  obtain ⟨hiff, htext⟩ := trace_reflects_value .brackets 1024 hanswer hsteps
  obtain ⟨v, hv⟩ := hiff.mpr hsep
  exact ⟨hanswer, hsteps, v, hv, htext v hv⟩

/-- A group behind an operand has no place in a text, but its value does if it begins with
a minus sign. -/
theorem trace_behind_operand :
    let source := "(1 (0 - 2))"
    let run := traceRun {} source
    run.outcome = .ok (.group [.atom "-1"]) ∧ run.steps.length = 2 ∧
      evaluate source =
        .error ⟨.literal (.unexpectedToken [.closing] .opening), [⟨3, 4⟩]⟩ := by
  decide +kernel

end Innermost
