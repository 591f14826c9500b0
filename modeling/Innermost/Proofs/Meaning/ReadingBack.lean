import Innermost.Proofs.Meaning.Preservation
import Innermost.Proofs.Tracing.Regions

/-!
What the literal evaluator answers reads back.

* `evaluate_text` reads the literal of a value back, and `literal_eq_ok_iff` says that
  nothing but such literals is answered. They stand for atoms (`Value.isAtomic_text`) and are
  read as such (`parse_text_of_value`).
* `FailsAt.not_isNotAtomic`: so it never happens that an answer is no atom. Whatever asks
  about a group fails of what comes of its question, or of something that is not asked
  (`Expr.not_isNotAtomic_of_evaluate`, `Expr.not_isNotAtomic_of_settle`,
  `not_isNotAtomic_of_trace`).
-/

namespace Innermost

/-! ### Answers -/

lemma literal_eq_ok_iff {text s : String} :
    Evaluator.literal text = .ok s ↔ ∃ v, evaluate text = .ok v ∧ v.text = s := by
  rw [Evaluator.literal]
  cases evaluate text <;> simp [Except.map]

/-- The literal of a value is an expression by itself. -/
lemma parse_text_of_value (v : Value) : Expr.parse v.text = .ok (.atom v.text) := by
  have hlegible : (Expr.atom v.text).Legible := .atom (isWord_of_isAtomic v.isAtomic_text)
  exact hlegible.parse_text (Nat.zero_le _)

/-! ### Failures -/

/-- The failure is that an answer is no atom. -/
def Failure.IsNotAtomic (failure : Failure) : Prop :=
  ∃ answer, failure.diagnostic.cause = .reduction (.notAtomic answer)

section Failures

variable {text source : String} {failure : Failure} {f : Evaluator} {e : Expr}

/-- What comes of a question to the literal evaluator is its own error. -/
lemma FailsAt.not_isNotAtomic (h : FailsAt .literal text failure) : ¬ failure.IsNotAtomic := by
  rintro ⟨answer, hcause⟩
  cases h with
  | refused h =>
      obtain ⟨fault, hfault⟩ := exists_fault_of_evaluate (evaluate_of_literal_eq_error h)
      exact nomatch hfault.symm.trans hcause
  | notAtomic h hatomic =>
      obtain ⟨v, -, rfl⟩ := literal_eq_ok_iff.mp h
      rw [v.isAtomic_text] at hatomic
      cases hatomic

/-- Nor is anything else what a computation fails of that fails only on its question. -/
lemma FailsOnAsking.not_isNotAtomic {α : Type} {c : Consultation (Except Failure α)}
    (hc : FailsOnAsking .literal c) (h : c.answer = .error failure) : ¬ failure.IsNotAtomic := by
  obtain ⟨text, -, hfails, -⟩ := hc failure h
  exact hfails.not_isNotAtomic

namespace Expr

/-- Any expression may be asked about, reducible or not. -/
lemma not_isNotAtomic_of_evaluate (h : (e.evaluate .literal).answer = .error failure) :
    ¬ failure.IsNotAtomic := by
  by_cases hr : e.isReducible = true
  · rw [evaluate_of_isReducible _ hr] at h
    exact (acceptAnswer_eq_error_iff.mp h).not_isNotAtomic
  · rw [evaluate, if_neg hr] at h
    cases h
    rintro ⟨answer, hcause⟩
    cases hcause

/-- Repeated reductions stop at the failure of one of them. -/
lemma not_isNotAtomic_of_settle (h : (e.settle .literal).outcome = .error failure) :
    ¬ failure.IsNotAtomic := by
  fun_induction settle .literal e with
  | case1 e ht => cases h
  | case2 e t ht consulted failure' hv =>
      cases h
      exact not_isNotAtomic_of_evaluate hv
  | case3 e t ht consulted value hv next hlt rest ih => exact ih h

end Expr

lemma not_isNotAtomic_of_trace {marker : Marker} {maxSteps : Nat}
    (h : trace ⟨.literal, marker, maxSteps⟩ source = .error failure) :
    ¬ failure.IsNotAtomic := by
  obtain ⟨d, hparse, rfl, -⟩ | ⟨text, -, hfails⟩ | rfl :=
    failure_traceRun (trace_eq_error_iff.mp h)
  · obtain ⟨fault, hfault⟩ := Expr.exists_read_of_parse hparse
    rintro ⟨answer, hcause⟩
    exact nomatch hfault.symm.trans hcause
  · exact hfails.not_isNotAtomic
  · rintro ⟨answer, hcause⟩
    cases hcause

end Failures

/-! ### Both ways -/

/-- **The answers of the literal evaluator read back.**

* Whatever it answers stands for an atom, is read as this atom, and is answered with itself.
* So nothing that asks it fails because an answer is no atom: neither the evaluation of an
  expression, nor the search for a reduction, a simplification, repeated or not, or a rendering
  of it, nor a trace.
* The literal of every value is evaluated to this value. -/
theorem literal_reads_back :
    (∀ text s, Evaluator.literal text = .ok s →
      isAtomic s = true ∧ Expr.parse s = .ok (.atom s) ∧ Evaluator.literal s = .ok s) ∧
    (∀ (e : Expr) (failure : Failure), failure.IsNotAtomic →
      (e.evaluate .literal).answer ≠ .error failure ∧
      (Reduction.find .literal e).answer ≠ .error failure ∧
      (e.simplify .literal).answer ≠ .error failure ∧
      (e.settle .literal).outcome ≠ .error failure ∧
      ∀ marker options, (e.render .literal marker options).answer ≠ .error failure) ∧
    (∀ (marker : Marker) (maxSteps : Nat) (source : String) (failure : Failure),
      failure.IsNotAtomic → trace ⟨.literal, marker, maxSteps⟩ source ≠ .error failure) ∧
    ∀ v : Value, evaluate v.text = .ok v := by
  refine ⟨fun text s h => ?_, fun e failure hf => ⟨?_, ?_, ?_, ?_, ?_⟩,
    fun marker maxSteps source failure hf h => not_isNotAtomic_of_trace h hf, evaluate_text⟩
  · obtain ⟨v, -, rfl⟩ := literal_eq_ok_iff.mp h
    exact ⟨v.isAtomic_text, parse_text_of_value v, literal_eq_ok_iff.mpr ⟨v, evaluate_text v, rfl⟩⟩
  · exact fun h => Expr.not_isNotAtomic_of_evaluate h hf
  · exact fun h => (Expr.failsOnAsking_find _ e).not_isNotAtomic h hf
  · exact fun h => (Expr.failsOnAsking_simplify _ e).not_isNotAtomic h hf
  · exact fun h => Expr.not_isNotAtomic_of_settle h hf
  · exact fun marker options h =>
      (Expr.failsOnAsking_render _ marker options e).not_isNotAtomic h hf

/-- The least integer comes of nested operations and is written with two tokens. The failure
that an answer is no atom is that of a trace with another evaluator. -/
theorem literal_reads_back_least :
    let least : Value := .integer ⟨-9223372036854775808, by decide, by decide⟩
    let failure : Failure := .ofGroup "(1 + 2)" (.notAtomic "(1 + 2)")
    (Evaluator.literal "(-(9223372036854775807) - 1)" = .ok "-9223372036854775808" ∧
      isAtomic "-9223372036854775808" = true ∧
      Expr.parse "-9223372036854775808" = .ok (.atom "-9223372036854775808") ∧
      Evaluator.literal "-9223372036854775808" = .ok "-9223372036854775808") ∧
    (least.text = "-9223372036854775808" ∧ evaluate least.text = .ok least) ∧
    (failure.IsNotAtomic ∧ trace ⟨.echo, .brackets, 8⟩ "(1 + 2)" = .error failure ∧
      trace ⟨.literal, .brackets, 8⟩ "(1 + 2)" ≠ .error failure) := by
  intro least failure
  have hanswer : Evaluator.literal "(-(9223372036854775807) - 1)" = .ok "-9223372036854775808" := by
    decide +kernel
  have hnot : failure.IsNotAtomic := ⟨"(1 + 2)", rfl⟩
  exact ⟨⟨hanswer, literal_reads_back.1 _ _ hanswer⟩,
    ⟨by decide +kernel, literal_reads_back.2.2.2 least⟩,
    hnot, by decide +kernel, literal_reads_back.2.2.1 _ _ _ _ hnot⟩

end Innermost
