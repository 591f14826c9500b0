import Innermost.Proofs.Literal.Accounts
import Innermost.Proofs.Literal.Precedence
import Innermost.Proofs.Literal.Regions
import Innermost.Proofs.Literal.Slices

/-!
The types of phrases, by their literals and operators alone.

* `UnaryOp.Takes`, `BinaryOp.Takes`: the types of the operands and of the result of an
  operator; `Phrase.HasType`: those of a phrase.
* `Phrase.HasType.comesTo`: a phrase that has a type comes to a value of this type, unless
  arithmetic fails in it.
* `Phrase.hasType_of_hasValue`: a phrase that has a value has a type.
* `Phrase.HasValue.of_mem`: a phrase that has a value has only parts with values. So no
  operand is left out, whatever the value of the other one.
* `typing_static` says all this of texts.
-/

namespace Innermost

open Evaluation

/-! ### Types of operators -/

/-- The unary operator takes operands of the first type to results of the second. -/
inductive UnaryOp.Takes : UnaryOp → ValueType → ValueType → Prop where
  | not : Takes .not .boolean .boolean
  | neg : Takes .neg .integer .integer

/-- The operators of arithmetic. -/
def BinaryOp.IsArithmetic (op : BinaryOp) : Prop := op.level = .term ∨ op.level = .factor

/-- The binary operator takes operands of the first two types to results of the third. -/
inductive BinaryOp.Takes : BinaryOp → ValueType → ValueType → ValueType → Prop where
  | logical {op : BinaryOp} (hop : op.level = .or ∨ op.level = .and) :
      Takes op .boolean .boolean .boolean
  | equality {op : BinaryOp} {τ : ValueType} (hop : op.level = .equality) : Takes op τ τ .boolean
  | comparison {op : BinaryOp} (hop : op.level = .comparison) :
      Takes op .integer .integer .boolean
  | arithmetic {op : BinaryOp} (hop : op.IsArithmetic) : Takes op .integer .integer .integer

/-- The faults of arithmetic. -/
inductive LiteralFault.IsArithmetic : LiteralFault → Prop where
  | divisionByZero : IsArithmetic .divisionByZero
  | overflow : IsArithmetic .overflow
  | integerTooLarge : IsArithmetic .integerTooLarge

/-- The diagnostic is about a fault of arithmetic. -/
def Diagnostic.IsArithmetic (d : Diagnostic) : Prop :=
  ∃ fault : LiteralFault, d.cause = .literal fault ∧ fault.IsArithmetic

section Operators

variable {v w u : Value} {σ τ ρ ρ' : ValueType}

lemma comesTo_fitting (n : Option Number) :
    ComesTo (fun u => Value.type u = .integer) LiteralFault.IsArithmetic (fitting n) := by
  cases n with
  | none => exact .error .overflow
  | some n => exact .ok rfl

lemma UnaryOp.Takes.unique {op : UnaryOp} (h : op.Takes σ ρ) (h' : op.Takes σ ρ') : ρ = ρ' := by
  cases h <;> cases h' <;> rfl

lemma BinaryOp.Takes.unique {op : BinaryOp} (h : op.Takes σ τ ρ) (h' : op.Takes σ τ ρ') :
    ρ = ρ' := by
  cases h <;> cases h' <;> simp_all [IsArithmetic]

/-- An operator whose operands are of types that it takes comes to a result of the type that
is due, unless arithmetic fails. -/
lemma UnaryOp.Takes.comesTo {op : UnaryOp} (h : op.Takes v.type ρ) :
    ComesTo (fun u => u.type = ρ) LiteralFault.IsArithmetic (op.eval v) := by
  cases v with
  | boolean b =>
      cases h with
      | not => exact .ok rfl
  | integer n =>
      cases h with
      | neg => exact comesTo_fitting _

lemma BinaryOp.Takes.comesTo {op : BinaryOp} (h : op.Takes v.type w.type ρ) :
    ComesTo (fun u => u.type = ρ) LiteralFault.IsArithmetic (op.eval v w) := by
  cases v with
  | boolean a =>
    cases w with
    | boolean b =>
      cases h with
      | logical hop => cases op <;> simp [level] at hop <;> exact .ok rfl
      | equality hop => cases op <;> simp [level] at hop <;> exact .ok rfl
    | integer b => cases h
  | integer a =>
    cases w with
    | boolean b => cases h
    | integer b =>
      cases h with
      | equality hop | comparison hop => cases op <;> simp [level] at hop <;> exact .ok rfl
      | arithmetic hop =>
        cases op <;> simp [IsArithmetic, level] at hop
        case add | sub | mul => exact comesTo_fitting _
        case div | mod =>
          simp only [eval]
          split_ifs
          · exact .error .divisionByZero
          · exact comesTo_fitting _

/-- An operator that comes to a result takes operands of these types. -/
lemma UnaryOp.takes_of_eval {op : UnaryOp} (h : op.eval v = .ok u) :
    op.Takes v.type u.type := by
  unfold UnaryOp.eval at h
  split at h
  · cases h
    exact .not
  · obtain ⟨n, -, rfl⟩ := fitting_eq_ok_iff.mp h
    exact .neg
  · cases h

lemma BinaryOp.takes_of_eval {op : BinaryOp} (h : op.eval v w = .ok u) :
    op.Takes v.type w.type u.type := by
  unfold BinaryOp.eval at h
  split at h
  case h_1 | h_2 =>
    cases h
    exact .logical (by simp [level])
  case h_3 | h_4 | h_5 | h_6 =>
    cases h
    exact .equality rfl
  case h_7 | h_8 | h_9 | h_10 =>
    cases h
    exact .comparison rfl
  case h_11 | h_12 | h_13 =>
    obtain ⟨n, -, rfl⟩ := fitting_eq_ok_iff.mp h
    exact .arithmetic (by simp [IsArithmetic, level])
  case h_14 | h_15 =>
    split_ifs at h
    obtain ⟨n, -, rfl⟩ := fitting_eq_ok_iff.mp h
    exact .arithmetic (by simp [IsArithmetic, level])
  case h_16 => cases h

end Operators

/-! ### Types of phrases -/

namespace Phrase

/-- The phrase has the type, by its literals and operators. -/
inductive HasType : Phrase → ValueType → Prop where
  | truth {t : Token} {b : Bool} (ht : t.kind = .truth b) : HasType (literal t) .boolean
  | integer {t : Token} (ht : t.kind = .integer) : HasType (literal t) .integer
  | negative {sign digits : Token} : HasType (negative sign digits) .integer
  | parens {opening closing : Token} {x : Phrase} {τ : ValueType} (hx : HasType x τ) :
      HasType (parens opening x closing) τ
  | unary {op : UnaryOp} {sign : Token} {x : Phrase} {σ ρ : ValueType} (hx : HasType x σ)
      (hop : op.Takes σ ρ) : HasType (unary op sign x) ρ
  | binary {op : BinaryOp} {x y : Phrase} {sign : Token} {σ τ ρ : ValueType} (hx : HasType x σ)
      (hy : HasType y τ) (hop : op.Takes σ τ ρ) : HasType (binary op x sign y) ρ

variable {p q : Phrase} {v : Value} {τ τ' : ValueType}

/-- A phrase has one type at most. -/
lemma HasType.unique (h : p.HasType τ) (h' : p.HasType τ') : τ = τ' := by
  induction h generalizing τ' with
  | truth ht =>
      cases h' with
      | truth => rfl
      | integer ht' => exact nomatch ht.symm.trans ht'
  | integer ht =>
      cases h' with
      | truth ht' => exact nomatch ht.symm.trans ht'
      | integer => rfl
  | negative =>
      cases h' with
      | negative => rfl
  | parens _ ih =>
      cases h' with
      | parens hx' => exact ih hx'
  | unary _ hop ih =>
      cases h' with
      | unary hx' hop' =>
          obtain rfl := ih hx'
          exact hop.unique hop'
  | binary _ _ hop ihx ihy =>
      cases h' with
      | binary hx' hy' hop' =>
          obtain rfl := ihx hx'
          obtain rfl := ihy hy'
          exact hop.unique hop'

lemma comesTo_integer (negative : Bool) (digits : String) (span : Span) :
    ComesTo (fun x => Value.type (Operand.value x) = .integer) Diagnostic.IsArithmetic
      (Evaluation.integer negative digits span) := by
  rw [Evaluation.integer]
  split
  · exact .ok rfl
  · exact .error ⟨_, rfl, .integerTooLarge⟩

lemma comesTo_ofEval {result : Except LiteralFault Value} (span : Span)
    (spans : LiteralFault → List Span)
    (h : ComesTo (fun u => u.type = τ) LiteralFault.IsArithmetic result) :
    ComesTo (fun x => x.value.type = τ) Diagnostic.IsArithmetic
      (Operand.ofEval span spans result) := by
  cases h with
  | ok hu => exact .ok hu
  | error hfault => exact .error ⟨_, rfl, hfault⟩

/-- **A phrase that has a type comes to a value of this type**, unless arithmetic fails. -/
theorem HasType.comesTo (h : p.HasType τ) :
    ComesTo (fun x => x.value.type = τ) Diagnostic.IsArithmetic p.eval := by
  induction h with
  | truth ht =>
      rw [eval_of_truth ht]
      exact .ok rfl
  | integer ht =>
      rw [eval_of_integer ht]
      exact comesTo_integer _ _ _
  | negative => exact comesTo_integer _ _ _
  | parens _ ih => exact ih.map fun _ hv => hv
  | unary _ hop ih =>
      refine ih.bind fun v _ hv => ?_
      subst hv
      exact comesTo_ofEval _ _ hop.comesTo
  | binary _ _ hop ihx ihy =>
      refine ihx.bind fun v _ hv => ihy.bind fun w _ hw => ?_
      subst hv hw
      exact comesTo_ofEval _ _ hop.comesTo

/-- **A phrase that has a value has a type**, that of the value. -/
theorem hasType_of_hasValue (hp : p.Grammatical) (h : p.HasValue v) : p.HasType v.type := by
  induction hp generalizing v with
  | truth ht =>
      obtain rfl := (hasValue_truth ht).mp h
      exact .truth ht
  | integer ht =>
      obtain ⟨n, -, rfl⟩ := (hasValue_integer ht).mp h
      exact .integer ht
  | negative =>
      obtain ⟨n, -, rfl⟩ := hasValue_negative.mp h
      exact .negative
  | parens _ _ _ ih => exact .parens (ih (hasValue_parens.mp h))
  | not _ _ _ ih | neg _ _ _ _ ih =>
      obtain ⟨u, hu, h⟩ := hasValue_unary.mp h
      exact .unary (ih hu) (UnaryOp.takes_of_eval h)
  | binary _ _ _ _ _ ihx ihy =>
      obtain ⟨u, w, hu, hw, h⟩ := hasValue_binary.mp h
      exact .binary (ihx hu) (ihy hw) (BinaryOp.takes_of_eval h)

/-! ### Parts without a value -/

/-- **No part is left out**: a phrase that has a value has only parts with values. -/
theorem HasValue.of_mem (h : p.HasValue v) (hq : q ∈ p.subphrases) : ∃ w, q.HasValue w := by
  induction p generalizing v with
  | literal t | negative sign digits =>
      rw [List.mem_singleton.mp hq]
      exact ⟨v, h⟩
  | parens opening x closing ih =>
      rcases List.mem_cons.mp hq with rfl | hq
      · exact ⟨v, h⟩
      · exact ih (hasValue_parens.mp h) hq
  | unary op sign x ih =>
      rcases List.mem_cons.mp hq with rfl | hq
      · exact ⟨v, h⟩
      · obtain ⟨u, hu, -⟩ := hasValue_unary.mp h
        exact ih hu hq
  | binary op x sign y ihx ihy =>
      rcases List.mem_cons.mp hq with rfl | hq
      · exact ⟨v, h⟩
      · obtain ⟨u, w, hu, hw, -⟩ := hasValue_binary.mp h
        exact (List.mem_append.mp hq).elim (ihx hu) (ihy hw)

end Phrase

/-! ### Texts -/

namespace Phrase

variable {text : String} {p q : Phrase} {τ : ValueType}

/-- A text that is a phrase without a value has none. -/
lemma Grammatical.exists_error (hp : p.Grammatical) (htext : Innermost.tokens text = p.tokens)
    (h : ∀ v, ¬ p.HasValue v) : ∃ d, evaluate text = .error d := by
  cases heval : evaluate text with
  | ok v => exact absurd ((hp.evaluate_eq_ok_iff htext).mp heval) (h v)
  | error d => exact ⟨d, rfl⟩

/-- A text that is a phrase with a type comes to a value of this type, unless arithmetic
fails. -/
lemma HasType.comesTo_evaluate (h : p.HasType τ) (hp : p.Grammatical)
    (htext : Innermost.tokens text = p.tokens) :
    ComesTo (fun v => v.type = τ) Diagnostic.IsArithmetic (evaluate text) := by
  rw [hp.evaluate_eq htext]
  exact h.comesTo.map fun _ hx => hx

/-- A text with a part that has no value by itself is a phrase without a value. -/
lemma Grammatical.not_hasValue_of_mem (hp : p.Grammatical)
    (htext : Innermost.tokens text = p.tokens) (hq : q ∈ p.subphrases) {d : Diagnostic}
    (hd : evaluate (q.span.slice text) = .error d) (v : Value) : ¬ p.HasValue v := by
  intro hv
  obtain ⟨w, hw⟩ := hv.of_mem hq
  have htokens : p.tokens <:+: Innermost.tokens text := htext ▸ List.infix_rfl
  have hslice := (hp.evaluate_slice_of_mem htokens hq).mpr hw
  exact nomatch hd.symm.trans hslice

end Phrase

/-- **Types are static and sound, and every operand is evaluated.** The expressions are the
phrases, and a text that has a value is one of the type of this value. For a text that is a
phrase,

* there is one type at most;
* if there is a type, the text has a value of this type, or arithmetic fails;
* if there is none, the text has no value;
* if some part of the text has no value by itself, the text has none, wherever the part
  stands. -/
theorem typing_static (text : String) :
    (WellFormed (tokens text) ↔ ∃ p : Phrase, p.Grammatical ∧ tokens text = p.tokens) ∧
    (∀ v, evaluate text = .ok v →
      ∃ p : Phrase, p.Grammatical ∧ tokens text = p.tokens ∧ p.HasType v.type) ∧
    ∀ p : Phrase, p.Grammatical → tokens text = p.tokens →
      (∀ τ τ', p.HasType τ → p.HasType τ' → τ = τ') ∧
      (∀ τ, p.HasType τ → (∃ v, evaluate text = .ok v ∧ v.type = τ) ∨
        ∃ d, evaluate text = .error d ∧ d.IsArithmetic) ∧
      ((∀ τ, ¬ p.HasType τ) → ∃ d, evaluate text = .error d) ∧
      ∀ q ∈ p.subphrases, (∃ d, evaluate (q.span.slice text) = .error d) →
        ∃ d, evaluate text = .error d := by
  refine ⟨wellFormed_iff, fun v hv => ?_, fun p hp htext =>
    ⟨fun τ τ' => Phrase.HasType.unique, fun τ hτ => ?_, fun hnone => ?_, ?_⟩⟩
  · obtain ⟨p, hp, htext⟩ := exists_phrase_of_evaluate hv
    have hvalue : p.HasValue v := (hp.evaluate_eq_ok_iff htext).mp hv
    exact ⟨p, hp, htext, Phrase.hasType_of_hasValue hp hvalue⟩
  · exact (hτ.comesTo_evaluate hp htext).ok_or_error
  · exact hp.exists_error htext fun v hv => hnone _ (Phrase.hasType_of_hasValue hp hv)
  · rintro q hq ⟨d, hd⟩
    exact hp.exists_error htext (hp.not_hasValue_of_mem htext hq hd)

/-- The right operand of `||` counts behind `true`, and that of `&&` behind `false`: one
has no value, the other one no type that the operator takes. -/
theorem typing_static_logical :
    let quotient : Phrase := .binary .div (.literal ⟨.integer, ⟨9, 10⟩, "1"⟩)
      ⟨.operator .div, ⟨11, 12⟩, "/"⟩ (.literal ⟨.integer, ⟨13, 14⟩, "0"⟩)
    let typed : Phrase := .binary .or (.literal ⟨.truth true, ⟨0, 4⟩, "true"⟩)
      ⟨.operator .or, ⟨5, 7⟩, "||"⟩
      (.parens ⟨.opening, ⟨8, 9⟩, "("⟩
        (.binary .eq quotient ⟨.operator .eq, ⟨15, 17⟩, "=="⟩
          (.literal ⟨.integer, ⟨18, 19⟩, "1"⟩))
        ⟨.closing, ⟨19, 20⟩, ")"⟩)
    let untyped : Phrase := .binary .and (.literal ⟨.truth false, ⟨0, 5⟩, "false"⟩)
      ⟨.operator .and, ⟨6, 8⟩, "&&"⟩ (.literal ⟨.integer, ⟨9, 10⟩, "1"⟩)
    (evaluate "true != (7 % -4 == 3)" = .ok (.boolean false) ∧
      ∃ p : Phrase, p.Grammatical ∧ tokens "true != (7 % -4 == 3)" = p.tokens ∧
        p.HasType .boolean) ∧
    (typed.Grammatical ∧ tokens "true || (1 / 0 == 1)" = typed.tokens ∧
      (typed.HasType .boolean ∧
        ((∃ v, evaluate "true || (1 / 0 == 1)" = .ok v ∧ v.type = .boolean) ∨
          ∃ d, evaluate "true || (1 / 0 == 1)" = .error d ∧ d.IsArithmetic)) ∧
      (quotient ∈ typed.subphrases ∧
        (∃ d, evaluate (quotient.span.slice "true || (1 / 0 == 1)") = .error d) ∧
        ∃ d, evaluate "true || (1 / 0 == 1)" = .error d)) ∧
    (untyped.Grammatical ∧ tokens "false && 1" = untyped.tokens ∧
      (∀ τ, ¬ untyped.HasType τ) ∧ ∃ d, evaluate "false && 1" = .error d) := by
  intro quotient typed untyped
  have hvalue : evaluate "true != (7 % -4 == 3)" = .ok (.boolean false) := by decide +kernel
  have htyped : typed.Grammatical :=
    .binary rfl (.truth rfl) (.parens rfl (.binary rfl (.binary rfl (.integer rfl) (.integer rfl)
      (by decide) (by decide)) (.integer rfl) (by decide) (by decide)) rfl) (by decide) (by decide)
  have htokens : tokens "true || (1 / 0 == 1)" = typed.tokens := by decide +kernel
  have hboolean : typed.HasType .boolean :=
    .binary (.truth rfl) (.parens (.binary (.binary (.integer rfl) (.integer rfl)
      (.arithmetic (.inr rfl))) (.integer rfl) (.equality rfl))) (.logical (.inl rfl))
  have hquotient : quotient ∈ typed.subphrases := by
    simp [typed, Phrase.subphrases, quotient.mem_subphrases_self]
  have hfails : ∃ d, evaluate (quotient.span.slice "true || (1 / 0 == 1)") = .error d :=
    ⟨LiteralFault.divisionByZero.at [⟨2, 3⟩, ⟨4, 5⟩], by decide +kernel⟩
  have huntyped : untyped.Grammatical :=
    .binary rfl (.truth rfl) (.integer rfl) (by decide) (by decide)
  have htokens' : tokens "false && 1" = untyped.tokens := by decide +kernel
  have hnone (τ : ValueType) : ¬ untyped.HasType τ := by
    intro h
    simp only [untyped] at h
    cases h with
    | binary hx hy hop =>
        obtain rfl := hx.unique (.truth rfl)
        obtain rfl := hy.unique (.integer rfl)
        cases hop
  obtain ⟨-, hsound, -, hparts⟩ := (typing_static _).2.2 typed htyped htokens
  exact ⟨⟨hvalue, (typing_static _).2.1 _ hvalue⟩,
    ⟨htyped, htokens, ⟨hboolean, hsound _ hboolean⟩, hquotient, hfails,
      hparts _ hquotient hfails⟩,
    huntyped, htokens', hnone, ((typing_static _).2.2 untyped huntyped htokens').2.2.1 hnone⟩

end Innermost
