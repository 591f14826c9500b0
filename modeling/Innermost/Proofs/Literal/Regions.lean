import Innermost.Proofs.Literal.Derivation
import Innermost.Proofs.Literal.LongestMatch
import Innermost.Proofs.Text.Regions

/-!
Where the faults of the literal language are shown.

* `Row`: tokens one behind another in a text, none before a given byte. The tokens of a
  text stand in a row (`row_tokens`).
* `Grounded`: computations whose result has a property and whose fault is one of the
  literal language that points into the text.
* `keeps`: what the evaluator finds in a row of tokens is an operand that lies in the text,
  and the tokens that are left stand in a row behind it. So an operator stands between
  its operands, and the regions of a fault are met in their order.
* `grounded_evaluate`: the faults of a whole text point into it.
-/

namespace Innermost

/-! ### Tokens in a row -/

/-- The tokens stand one behind another in the text, the first of them not before byte
`low`. -/
inductive Row (text : String) : (low : Nat) → List Token → Prop where
  | nil {low : Nat} : Row text low []
  | cons {low : Nat} {t : Token} {ts : List Token} (hlow : low ≤ t.span.start)
      (ht : t.span.LiesIn text) (hts : Row text t.span.stop ts) : Row text low (t :: ts)

section Rows

variable {text : String} {low low' : Nat} {ts : List Token}

lemma Row.mono (h : Row text low ts) (hle : low' ≤ low) : Row text low' ts := by
  cases h with
  | nil => exact .nil
  | cons hlow ht hts => exact .cons (hle.trans hlow) ht hts

/-- Tokens may be left out of a row. -/
lemma Row.filter (h : Row text low ts) (p : Token → Bool) : Row text low (ts.filter p) := by
  induction h with
  | nil => exact .nil
  | @cons low t ts hlow ht _ ih =>
      rw [List.filter_cons]
      split_ifs
      · exact .cons hlow ht ih
      · exact ih.mono (hlow.trans ht.start_le_stop)

/-- The lexemes that a text is cut into stand in a row. -/
lemma row_scan {start : Nat} {cs : List Char} (h : ContinuesAt text start cs) :
    Row text start (Token.scan start cs) := by
  fun_induction Token.scan start cs with
  | case1 start => exact .nil
  | case2 start c rest tail stop ih =>
      rw [← lexemeTail_append_drop c rest] at h
      exact .cons le_rfl h.liesIn (ih h.append)

lemma row_tokens (text : String) : Row text 0 (tokens text) :=
  (row_scan (continuesAt_start text)).filter _

/-- A token stands behind all tokens that come before it in the row. -/
lemma Row.stop_le {t : Token} {us : List Token} (h : Row text low (ts ++ t :: us)) :
    low ≤ t.span.start ∧ ∀ s ∈ ts, s.span.stop ≤ t.span.start := by
  induction ts generalizing low with
  | nil =>
      cases h with
      | cons hlow _ _ => exact ⟨hlow, by simp⟩
  | cons s ts ih =>
      cases h with
      | cons hlow hs hts =>
          obtain ⟨hle, hall⟩ := ih hts
          exact ⟨(hlow.trans hs.start_le_stop).trans hle, List.forall_mem_cons.mpr ⟨hle, hall⟩⟩

end Rows

/-! ### Faults that point into the text -/

/-- The computation comes to a result with the property `P`, or to a fault of the literal
language that points into the text. -/
inductive Grounded (text : String) {α : Type} (P : α → Prop) : Except Diagnostic α → Prop where
  | ok {a : α} (h : P a) : Grounded text P (.ok a)
  | error {fault : LiteralFault} {spans : List Span}
      (h : Diagnostic.PointsInto text (fault.at spans)) : Grounded text P (.error (fault.at spans))

section Faults

variable {text : String} {α β : Type} {P : α → Prop} {Q : β → Prop} {c : Except Diagnostic α}
  {place : Span} {x y : Operand}

lemma Grounded.bind {g : α → Except Diagnostic β} (h : Grounded text P c)
    (hg : ∀ a, c = .ok a → P a → Grounded text Q (g a)) : Grounded text Q (c >>= g) := by
  cases h with
  | ok ha => exact hg _ rfl ha
  | error h => exact .error h

lemma Grounded.mono {P' : α → Prop} (h : Grounded text P c) (hP : ∀ a, P a → P' a) :
    Grounded text P' c := by
  cases h with
  | ok ha => exact .ok (hP _ ha)
  | error h => exact .error h

/-- A fault with one label at one region. -/
lemma grounded_singleton {fault : LiteralFault} {s : Span} (hs : s.LiesIn text)
    (hlabels : 1 = fault.wording.labels.length) :
    Grounded text P (.error (fault.at [s])) :=
  .error (Diagnostic.pointsInto_singleton hs hlabels)

/-! #### Operations -/

lemma fitting_eq_error {n : Option Number} {fault : LiteralFault} (h : fitting n = .error fault) :
    fault = .overflow := by
  cases n with
  | some n => cases h
  | none =>
      cases h
      rfl

/-- The faults of unary operators. -/
lemma UnaryOp.eval_eq_error {op : UnaryOp} {v : Value} {fault : LiteralFault}
    (h : op.eval v = .error fault) :
    fault = .invalidOperand op v.type ∨ fault = .overflow := by
  unfold UnaryOp.eval at h
  split at h
  · cases h
  · exact .inr (fitting_eq_error h)
  · cases h
    exact .inl rfl

/-- The faults of binary operators. -/
lemma BinaryOp.eval_eq_error {op : BinaryOp} {v w : Value} {fault : LiteralFault}
    (h : op.eval v w = .error fault) :
    fault = .invalidOperands op v.type w.type ∨ fault = .divisionByZero ∨ fault = .overflow := by
  unfold BinaryOp.eval at h
  split at h
  case h_14 | h_15 =>
    split_ifs at h
    · cases h
      exact .inr (.inl rfl)
    · exact .inr (.inr (fitting_eq_error h))
  case h_11 | h_12 | h_13 => exact .inr (.inr (fitting_eq_error h))
  case h_16 =>
    cases h
    exact .inl rfl
  all_goals cases h

/-- An operation on an operand behind its operator fills the region of both. -/
lemma UnaryOp.grounded_apply (op : UnaryOp) (hplace : place.LiesIn text)
    (hx : x.span.LiesIn text) (hle : place.stop ≤ x.span.start) :
    Grounded text (fun y => y.span = place.through x.span) (op.apply place x) := by
  have hthrough : (place.through x.span).LiesIn text :=
    hplace.through hx ((hplace.start_le_stop.trans hle).trans hx.start_le_stop)
  rw [UnaryOp.apply]
  cases heval : op.eval x.value with
  | ok v => exact .ok rfl
  | error fault =>
      obtain rfl | rfl := UnaryOp.eval_eq_error heval
      · exact .error ⟨by simp [LiteralFault.at, faultSpans, hplace, hx],
          by simpa [LiteralFault.at, faultSpans] using hle, rfl⟩
      · exact grounded_singleton hthrough rfl

/-- An operation on operands before and behind its operator fills the region of all. -/
lemma BinaryOp.grounded_apply (op : BinaryOp) (hplace : place.LiesIn text)
    (hx : x.span.LiesIn text) (hy : y.span.LiesIn text) (hxle : x.span.stop ≤ place.start)
    (hyle : place.stop ≤ y.span.start) :
    Grounded text (fun z => z.span = x.span.through y.span) (op.apply place x y) := by
  have hle : x.span.stop ≤ y.span.start := (hxle.trans hplace.start_le_stop).trans hyle
  have hthrough : (x.span.through y.span).LiesIn text :=
    hx.through hy ((hx.start_le_stop.trans hle).trans hy.start_le_stop)
  rw [BinaryOp.apply]
  cases heval : op.eval x.value y.value with
  | ok v => exact .ok rfl
  | error fault =>
      obtain rfl | rfl | rfl := BinaryOp.eval_eq_error heval
      · exact .error ⟨by simp [LiteralFault.at, faultSpans, hplace, hx, hy],
          by simp [LiteralFault.at, faultSpans, hxle, hyle, hle], rfl⟩
      · exact .error ⟨by simp [LiteralFault.at, faultSpans, hplace, hy],
          by simp [LiteralFault.at, faultSpans, hyle], rfl⟩
      · exact grounded_singleton hthrough rfl

end Faults

/-! ### Steps of the evaluator -/

namespace Evaluation

/-- What has been found begins no sooner than at byte `low`, and the tokens that are left
stand in a row behind it. -/
structure Behind (text : String) (low : Nat) (found : Operand × List Token) : Prop where
  liesIn : found.1.span.LiesIn text
  low_le : low ≤ found.1.span.start
  row : Row text found.1.span.stop found.2

section Steps

variable {text : String} {low : Nat} {t : Token} {ts : List Token} {x : Operand}

lemma grounded_atEnd {α : Type} {P : α → Prop} : Grounded text P (atEnd text.utf8ByteSize) :=
  grounded_singleton (Span.liesIn_end text) rfl

/-- A literal fills its region. -/
lemma grounded_integer {span : Span} (hspan : span.LiesIn text) (hlow : low ≤ span.start)
    (hts : Row text span.stop ts) (negative : Bool) (digits : String) :
    Grounded text (Behind text low) ((integer negative digits span).map (·, ts)) := by
  rw [integer]
  split
  · exact .ok ⟨hspan, hlow, hts⟩
  · exact grounded_singleton hspan rfl

/-- An operand in parentheses fills the region from one to the other. -/
lemma grounded_close {opening : Span} (hopening : opening.LiesIn text)
    (hx : Behind text opening.stop (x, ts)) :
    Grounded text (Behind text opening.start) (bare (close text.utf8ByteSize opening x ts)) := by
  obtain ⟨hin, hle, hts⟩ := hx
  cases hts with
  | nil => exact grounded_atEnd
  | @cons _ t ts hlow ht hrest =>
      rw [close]
      split_ifs
      · have hbefore : opening.start ≤ t.span.stop :=
          calc opening.start ≤ opening.stop := hopening.start_le_stop
            _ ≤ x.span.start := hle
            _ ≤ x.span.stop := hin.start_le_stop
            _ ≤ t.span.start := hlow
            _ ≤ t.span.stop := ht.start_le_stop
        exact .ok ⟨hopening.through ht hbefore, le_rfl, hrest⟩
      · exact grounded_singleton ht rfl

/-- What is found behind a token is found behind all that is before the token. -/
lemma Behind.mono {low' : Nat} {found : Operand × List Token} (h : Behind text low found)
    (hle : low' ≤ low) : Behind text low' found :=
  ⟨h.liesIn, hle.trans h.low_le, h.row⟩

/-- An operation fills the region from its sign to the end of its operand. -/
lemma grounded_sign (op : UnaryOp) (ht : t.span.LiesIn text)
    (hx : Behind text t.span.stop (x, ts)) :
    Grounded text (Behind text t.span.start) (do
      let x ← op.apply t.span x
      .ok (x, ts)) := by
  have hle : t.span.start ≤ x.span.stop :=
    (ht.start_le_stop.trans hx.low_le).trans hx.liesIn.start_le_stop
  refine (op.grounded_apply ht hx.liesIn hx.low_le).bind fun y _ hy => .ok ?_
  exact ⟨hy ▸ ht.through hx.liesIn hle, hy ▸ le_rfl, hy ▸ hx.row⟩

/-- No token is refused but at its own region. -/
lemma grounded_refuses {α : Type} {P : α → Prop} {d : Diagnostic} (h : Refuses t d)
    (ht : t.span.LiesIn text) : Grounded text P (.error d) := by
  cases h with
  | name => exact grounded_singleton ht rfl
  | unexpected => exact grounded_singleton ht rfl

/-- **What is found in a row of tokens keeps its place in the text.** -/
theorem keeps (text : String) :
    (∀ ts low, Row text low ts →
      Grounded text (Behind text low) (operand text.utf8ByteSize ts)) ∧
    ∀ floor x ts low, Behind text low (x, ts) →
      Grounded text (Behind text low) (climb text.utf8ByteSize floor x ts) := by
  refine reading_induction
    (P := fun ts r => ∀ low, Row text low ts → Grounded text (Behind text low) r)
    (Q := fun _ x ts r => ∀ low, Behind text low (x, ts) → Grounded text (Behind text low) r)
    ?ended ?truth ?digits ?negative ?parens ?sign ?refused ?rests ?operator
  case ended => exact fun _ _ => grounded_atEnd
  case truth =>
      rintro t ts b - low (_ | ⟨hlow, ht, hts⟩)
      exact .ok ⟨ht, hlow, hts⟩
  case digits =>
      rintro t ts - low (_ | ⟨hlow, ht, hts⟩)
      exact grounded_integer ht hlow hts _ _
  case negative =>
      rintro t u us - - low (_ | ⟨hlow, ht, _ | ⟨htu, hu, hus⟩⟩)
      have hle : t.span.start ≤ u.span.stop :=
        (ht.start_le_stop.trans htu).trans hu.start_le_stop
      exact grounded_integer (ht.through hu hle) hlow hus _ _
  case parens =>
      rintro t ts - ihx ihv low (_ | ⟨hlow, ht, hts⟩)
      refine (ihx _ hts).bind fun (x, us) hx hbehind => ?_
      refine (ihv x us hx _ hbehind).bind fun _ _ hclimb => ?_
      exact (grounded_close ht hclimb).mono fun _ h => h.mono hlow
  case sign =>
      rintro op t ts - ih low (_ | ⟨hlow, ht, hts⟩)
      refine (ih _ hts).bind fun (x, us) _ hbehind => ?_
      exact (grounded_sign op ht hbehind).mono fun _ h => h.mono hlow
  case refused =>
      rintro t ts d hd low (_ | ⟨-, ht, -⟩)
      exact grounded_refuses hd ht
  case rests => exact fun _ _ h => .ok h
  case operator =>
      rintro floor x t ts op - - ihy ihz ihv low ⟨hx, hlow, _ | ⟨hxt, ht, hus⟩⟩
      refine (ihy _ hus).bind fun (y, us) hy hbehind => ?_
      refine (ihz y us hy _ hbehind).bind fun (z, ws) hz hright => ?_
      have hle : x.span.start ≤ z.span.stop :=
        calc x.span.start ≤ x.span.stop := hx.start_le_stop
          _ ≤ t.span.start := hxt
          _ ≤ t.span.stop := ht.start_le_stop
          _ ≤ z.span.start := hright.low_le
          _ ≤ z.span.stop := hright.liesIn.start_le_stop
      refine (op.grounded_apply ht hx hright.liesIn hxt hright.low_le).bind fun x' _ hx' => ?_
      refine ihv y us z ws x' hy hz low ?_
      exact ⟨hx' ▸ hx.through hright.liesIn hle, hx' ▸ hlow, hx' ▸ hright.row⟩

/-- The expression in front of a text keeps its place. -/
lemma grounded_expression (text : String) : Grounded text (Behind text 0)
    (bare (expression text.utf8ByteSize (tokens text))) := by
  obtain ⟨hoperand, hclimb⟩ := keeps text
  rw [bare_expression]
  refine (hoperand _ 0 (row_tokens text)).bind ?_
  rintro ⟨x, us⟩ - hx
  exact hclimb 0 x us 0 hx

end Steps

end Evaluation

/-- **The faults of a text of literals point into it.** -/
theorem grounded_evaluate (text : String) : Grounded text (fun _ => True) (evaluate text) := by
  rw [evaluate_eq, ← Evaluation.bare_expression]
  refine (Evaluation.grounded_expression text).bind ?_
  rintro ⟨x, rest⟩ - ⟨-, -, hrow⟩
  cases hrow with
  | nil => exact .ok trivial
  | @cons _ t ts _ ht _ =>
      have hrest : Span.LiesIn text ⟨t.span.start, text.utf8ByteSize⟩ :=
        ht.through (Span.liesIn_end text) (ht.start_le_stop.trans ht.stop_le_size)
      exact grounded_singleton hrest rfl

/-- The fault for which a text has no value points into the text. -/
lemma pointsInto_of_evaluate {text : String} {d : Diagnostic} (h : evaluate text = .error d) :
    d.PointsInto text := by
  have hgrounded := grounded_evaluate text
  rw [h] at hgrounded
  cases hgrounded with
  | error hpoints => exact hpoints

/-- It is one of the literal language. -/
lemma exists_fault_of_evaluate {text : String} {d : Diagnostic} (h : evaluate text = .error d) :
    ∃ fault, d.cause = .literal fault := by
  have hgrounded := grounded_evaluate text
  rw [h] at hgrounded
  cases hgrounded with
  | error => exact ⟨_, rfl⟩

end Innermost
