import Innermost.Proofs.Meaning.Flattening
import Innermost.Proofs.Reducing.Live
import Innermost.Proofs.Rendering.Marking
import Innermost.Proofs.Tracing.History

/-!
A trace with the literal evaluator keeps the value of the text.

* `exists_value_of_target?`: in an expression that has a value the target has one
  too, and the literal of it may take the place of the target. This is one step.
* `KeepsValue`: what a whole run from such an expression does.
  Of a wide expression nothing is left but one atom, in parentheses.
* `trace_keeps_value` puts this together for the trace of a text.
-/

namespace Innermost

/-- A literal is evaluated to the value that it denotes. -/
lemma evaluate_text (v : Value) : evaluate v.text = .ok v := by
  rw [evaluate_eq_ok_iff]
  have h := yields_text v []
  rw [List.append_nil] at h
  exact ⟨v, [], h, .stop (rests_nil 0)⟩

namespace Expr

/-- Only the whole of a group can turn into an atom. -/
lemma eq_atom_of_replace {e new : Expr} {p : Path} {s : String} (hgroup : e.isAtom = false)
    (h : e.replace p new = .atom s) : new = .atom s := by
  cases e with
  | atom s' => cases hgroup
  | group es =>
      cases p with
      | nil => exact h
      | cons i p => cases h

/-! ### One step -/

/-- In an expression that has a value the target has one too, and the literal of
it may take the place of the target. -/
theorem exists_value_of_target? {e : Expr} {t : Located} {v : Value} (he : e.Legible)
    (h : Means e.lexemes v) (ht : e.target? = some t) :
    ∃ w : Value, (t.node.evaluate .literal).answer = .ok w.text ∧ Means t.node.lexemes w ∧
      Means (e.replace t.path (.atom w.text)).lexemes v := by
  obtain ⟨hget, hr⟩ := get?_of_target? ht
  obtain ⟨hbalanced, hlegible⟩ := Balanced.of_get? h.balance he hget
  obtain ⟨pre, suf, hlexemes, hreplace⟩ := exists_lexemes_replace hget
  cases hnode : t.node with
  | atom s => simp [hnode, isReducible, isDeepest] at hr
  | group es =>
      rw [hnode] at hr hbalanced hlegible hlexemes
      have hplain := hbalanced.isPlain_of_all_isAtom (legible_group_iff.mp hlegible)
        (isReducible_group_iff.mp hr).1
      rw [hlexemes, lexemes_group] at h
      obtain ⟨w, hw, hv⟩ := h.replace hplain
      rw [← lexemes_group] at hw
      have hliteral : Evaluator.literal (group es).text = .ok w.text := by
        rw [Evaluator.literal, hlegible.evaluate_text_iff.mpr hw]
        rfl
      refine ⟨w, ?_, hw, by rwa [hreplace, lexemes_atom]⟩
      rw [evaluate_of_isReducible _ hr, hliteral, acceptAnswer, if_pos w.isAtomic_text]

/-- Parentheses around a bare atom do not change the value. -/
lemma means_regrouped {e : Expr} {v : Value} (h : Means e.lexemes v) :
    Means e.regrouped.lexemes v := by
  cases e with
  | group es => exact h
  | atom s =>
      rw [regrouped, lexemes_group, lexemesAll_cons, lexemesAll_nil, List.append_nil]
      exact h.enclosed

/-! ### The number of steps -/

lemma steps_settle_of_target?_eq_none (f : Evaluator) {e : Expr} (h : e.target? = none) :
    (e.settle f).steps = [] := by
  rw [settle]
  split
  · rfl
  · rename_i t ht
    rw [h] at ht
    cases ht

lemma steps_settle_of_target? {f : Evaluator} {e : Expr} {t : Located} {value : String}
    (ht : e.target? = some t) (hv : (t.node.evaluate f).answer = .ok value) :
    (e.settle f).steps.length =
      ((e.replace t.path (.atom value)).settle f).steps.length + 1 := by
  rw [settle]
  split
  · rename_i ht'
    rw [ht] at ht'
    cases ht'
  · rename_i t' ht'
    obtain rfl : t = t' := Option.some.inj (ht.symm.trans ht')
    simp only [hv]
    rfl

/-- Parentheses around a bare atom need no steps. -/
lemma steps_settle_regrouped (f : Evaluator) (e : Expr) :
    (e.regrouped.settle f).steps = (e.settle f).steps := by
  cases e with
  | group es => rfl
  | atom s =>
      rw [regrouped, steps_settle_of_target?_eq_none f (target?_group_atom s),
        steps_settle_of_target?_eq_none f (by rw [target?])]

end Expr

/-! ### A whole run -/

/-- The answer of a trace that comes down to one value: its literal, in
parentheses. -/
def soleAnswer (v : Value) : Expr := .group [.atom v.text]

/-- What a run with the literal evaluator does, from an expression `e` of value
`v`. -/
structure KeepsValue (marker : Marker) (v : Value) (e : Expr) (h : History) : Prop where
  /-- Every line has the value. -/
  held : ∀ x ∈ h.held, Means x.lexemes v
  /-- So have the lines that are shown, if nothing marks the reduced group. -/
  steps : marker = .unmarked → ∀ step ∈ h.run.steps,
    evaluate step.before = .ok v ∧ evaluate step.after = .ok v
  /-- There are as many steps as reductions. -/
  length_steps : h.run.steps.length = (e.settle .literal).steps.length
  /-- The last line is the answer. -/
  answer : ∃ answer ∈ h.held, h.run.outcome = .ok answer ∧
    (e.isAtom = false → e.Wide → answer = soleAnswer v) ∧ (e = soleAnswer v → answer = e)

section Run

variable {marker : Marker} {maxSteps left taken : Nat} {source : String} {e : Expr} {v : Value}

/-- A run from an expression that has a value stops only because it is done, if it
may take as many steps as there are reductions. -/
lemma keepsValue_of_stops {run : Run} (he : e.Legible)
    (h : Stops ⟨.literal, marker, maxSteps⟩ source left taken e run) (hv : Means e.lexemes v)
    (hleft : (e.settle .literal).steps.length ≤ left) : KeepsValue marker v e ⟨[e], run⟩ := by
  cases h with
  | done ht =>
      refine ⟨fun x hx => ?_, fun _ step hstep => ?_, ?_, e, List.mem_singleton_self e, rfl, ?_, ?_⟩
      · rwa [List.mem_singleton.mp hx]
      · cases hstep
      · rw [Expr.steps_settle_of_target?_eq_none _ ht]
        rfl
      · exact fun hgroup hwide => absurd ht (hwide.target?_ne_none hgroup)
      · exact fun _ => rfl
  | limit ht =>
      obtain ⟨w, hw, -, -⟩ := Expr.exists_value_of_target? he hv ht
      rw [Expr.steps_settle_of_target? ht hw] at hleft
      exact absurd hleft (by omega)
  | failed ht hfailure =>
      obtain ⟨w, hw, -, -⟩ := Expr.exists_value_of_target? he hv ht
      exact absurd (hw.symm.trans hfailure) (by simp)

/-- The value of an expression that is left as one atom is written by this
atom. -/
lemma eq_of_means_atom {w : Value} (h : Means (Expr.atom w.text).lexemes v) : v = w := by
  rw [Expr.lexemes_atom, ← evaluate_eq_ok_iff, evaluate_text] at h
  exact (Except.ok.inj h).symm

/-- A step hands on what the rest of the run does. -/
lemma keepsValue_of_step {t : Expr.Located} {w : Value} {rest : History} (he : e.Legible)
    (ht : e.target? = some t) (hw : (t.node.evaluate .literal).answer = .ok w.text)
    (hv : Means e.lexemes v) (hnext : Means (e.replace t.path (.atom w.text)).lexemes v)
    (hrest : KeepsValue marker v (e.replace t.path (.atom w.text)).regrouped rest) :
    KeepsValue marker v e ⟨e :: rest.held,
      .after [stepAt ⟨.literal, marker, maxSteps⟩ e t w.text] [t.node.text] rest.run⟩ := by
  obtain ⟨hget, hr⟩ := Expr.get?_of_target? ht
  have hnextLegible : (e.replace t.path (.atom w.text)).Legible :=
    he.replace (.atom (isWord_of_isAtomic w.isAtomic_text)) t.path
  obtain ⟨answer, hmem, hout, hwide, hsole⟩ := hrest.answer
  refine ⟨fun x hx => ?_, fun hmarker step hstep => ?_, ?_, answer, .tail _ hmem, hout, ?_, ?_⟩
  · rcases List.mem_cons.mp hx with rfl | hx
    · exact hv
    · exact hrest.held x hx
  · rcases List.mem_cons.mp hstep with rfl | hstep
    · subst hmarker
      have hbefore : evaluate (e.textWith t.node.text t.path) = .ok v := by
        rw [Expr.textWith_text_of_get? hget]
        exact he.evaluate_text_iff.mpr hv
      have hafter : evaluate (e.textWith w.text t.path) = .ok v := by
        rw [← Expr.text_atom w.text, Expr.textWith_text]
        exact hnextLegible.evaluate_text_iff.mpr hnext
      exact ⟨hbefore, hafter⟩
    · exact hrest.steps hmarker step hstep
  · rw [Expr.steps_settle_of_target? ht hw, ← Expr.steps_settle_regrouped, ← hrest.length_steps]
    rfl
  · intro hgroup hwide'
    have hnextWide := (Expr.wide_replace_target_iff ht w.text).mpr hwide'
    cases hreplace : e.replace t.path (.atom w.text) with
    | group es =>
        rw [hreplace] at hwide hnextWide
        exact hwide rfl hnextWide
    | atom s =>
        have hatom := Expr.eq_atom_of_replace hgroup hreplace
        rw [hreplace, ← hatom] at hsole hnext
        obtain rfl := eq_of_means_atom hnext
        exact hsole rfl
  · rintro rfl
    rw [soleAnswer, Expr.target?_group_atom] at ht
    cases ht

/-- **The value is kept by every run**: one step after another hands it on. -/
theorem keepsValue_historyFrom (he : e.Readable) (hv : Means e.lexemes v)
    (hleft : (e.settle .literal).steps.length ≤ left) :
    KeepsValue marker v e (historyFrom ⟨.literal, marker, maxSteps⟩ source left taken e) := by
  revert hv hleft
  refine history_induction (P := fun left _ e h => Means e.lexemes v →
    (e.settle .literal).steps.length ≤ left → KeepsValue marker v e h) ?_ ?_ left taken he
  · intro _ _ e run he hstop hv hleft
    exact keepsValue_of_stops he.legible hstop hv hleft
  · intro left _ e t value rest he ht hvalue _ ih hv hleft
    obtain ⟨w, hw, -, hnext⟩ := Expr.exists_value_of_target? he.legible hv ht
    obtain rfl : w.text = value := Except.ok.inj (hw.symm.trans hvalue)
    have hleft' : ((e.replace t.path (.atom w.text)).regrouped.settle .literal).steps.length ≤
        left := by
      rw [Expr.steps_settle_of_target? ht hw] at hleft
      rw [Expr.steps_settle_regrouped]
      omega
    exact keepsValue_of_step he.legible ht hw hv hnext (ih (Expr.means_regrouped hnext) hleft')

end Run

/-- **A trace with the literal evaluator keeps the value of the text.** If a text
that is read as `e` has the value `v`, and no more steps are needed than are
allowed, then

* the trace succeeds, in as many steps as there are reductions;
* every line has the value `v`: the expression before and after each step, and the
  lines that are shown if nothing marks the reduced group;
* the answer has the value `v`; if the text is a group, and all its groups have at
  least two children, then the answer is the literal of `v` in parentheses. -/
theorem trace_keeps_value (marker : Marker) (maxSteps : Nat) {source : String} {e : Expr}
    {v : Value} (hparse : Expr.parse source = .ok e) (hv : evaluate source = .ok v)
    (hsteps : (e.settle .literal).steps.length ≤ maxSteps) :
    let run := traceRun ⟨.literal, marker, maxSteps⟩ source
    let history := historyOf ⟨.literal, marker, maxSteps⟩ source
    ∃ answer, trace ⟨.literal, marker, maxSteps⟩ source = .ok ⟨run.steps.dropLast, answer⟩ ∧
      run.steps.length = (e.settle .literal).steps.length ∧
      history.run = run ∧ (∀ x ∈ history.held, evaluate x.text = .ok v) ∧
      (marker = .unmarked → ∀ step ∈ run.steps,
        evaluate step.before = .ok v ∧ evaluate step.after = .ok v) ∧
      answer ∈ history.held ∧ evaluate answer.text = .ok v ∧
      (e.isAtom = false → e.Wide → answer = .group [.atom v.text]) := by
  have he := Expr.readable_of_parse hparse
  have hmeans := (Expr.evaluate_eq_ok_iff_of_parse hparse).mp hv
  have hkeeps : KeepsValue marker v e (historyOf ⟨.literal, marker, maxSteps⟩ source) := by
    rw [historyOf_of_parse hparse]
    exact keepsValue_historyFrom he hmeans hsteps
  have hlines : ∀ x ∈ (historyOf ⟨.literal, marker, maxSteps⟩ source).held,
      evaluate x.text = .ok v := by
    intro x hx
    have hmeans := hkeeps.held x hx
    rw [historyOf_of_parse hparse] at hx
    exact (readable_of_mem_held he hx).legible.evaluate_text_iff.mpr hmeans
  obtain ⟨answer, hmem, hout, hwide, -⟩ := hkeeps.answer
  simp only
  rw [← run_historyOf]
  refine ⟨answer, ?_, hkeeps.length_steps, rfl, hlines, hkeeps.steps, hmem,
    hlines answer hmem, hwide⟩
  rw [trace, ← run_historyOf, Run.trace, hout]
  rfl

/-- The least integer is carried into the next step, where it can be read only as a
negative literal. -/
theorem trace_keeps_value_least :
    let source := "((0 - 9223372036854775807 - 1) + 1)"
    let e := Expr.group [.group [.atom "0", .atom "-", .atom "9223372036854775807", .atom "-",
      .atom "1"], .atom "+", .atom "1"]
    Expr.parse source = .ok e ∧
      evaluate source = .ok (.integer ⟨-9223372036854775807, by decide, by decide⟩) ∧
      (e.settle .literal).steps.length ≤ 1024 ∧
      ∃ steps, trace {} source = .ok ⟨steps, .group [.atom "-9223372036854775807"]⟩ := by
  intro source e
  have hparse : Expr.parse source = .ok e := by decide +kernel
  have hv : evaluate source = .ok (.integer ⟨-9223372036854775807, by decide, by decide⟩) := by
    decide +kernel
  have hsteps : (e.settle .literal).steps.length ≤ 1024 := by decide +kernel
  obtain ⟨answer, htrace, -, -, -, -, -, -, hanswer⟩ :=
    trace_keeps_value .brackets 1024 hparse hv hsteps
  have hinner : (Expr.group [.atom "0", .atom "-", .atom "9223372036854775807", .atom "-",
      .atom "1"]).Wide := .group (by decide) (by simp [Expr.Wide.atom])
  have hwide : e.Wide := .group (by decide) (by simp [hinner, Expr.Wide.atom])
  obtain rfl := hanswer rfl hwide
  exact ⟨hparse, hv, hsteps, _, htrace⟩

end Innermost
