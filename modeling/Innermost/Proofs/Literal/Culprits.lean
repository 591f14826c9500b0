import Innermost.Proofs.Literal.Accounts
import Innermost.Proofs.Literal.Regions
import Innermost.Proofs.Literal.Slices

/-!
The faults of the literal language name their culprits.

* `Token.StandsIn`: the tokens of a text, each with a region that holds it and nothing else.
* `Diagnostic.NamesCulprit`: what the regions of a diagnostic hold, by its cause. A part of the
  text that is told to be an operand of some type, or a divisor of zero, has such a value when
  it is evaluated by itself, and a part that is told to be out of range is so by itself.
* `Phrase.Fails.namesCulprit`: it is so for phrases that fail, since the operands of a phrase
  are phrases in their own regions, and these regions hold texts with the same value
  (`Phrase.Grammatical.evaluate_slice`).
* `evaluate_namesCulprit`: every fault of a text is that of one of its tokens, or of a phrase
  among them.
-/

namespace Innermost

open Evaluation

/-! ### Culprits -/

/-- The token is one of the text, and its region holds this one token. -/
structure Token.StandsIn (text : String) (t : Token) : Prop where
  mem : t ∈ tokens text
  slice_eq : t.span.slice text = t.lexeme
  tokens_eq : tokens t.lexeme = [⟨t.kind, .whole t.lexeme, t.lexeme⟩]

/-- The regions of the diagnostic hold what its cause is about. -/
inductive Diagnostic.NamesCulprit (text : String) : Diagnostic → Prop where
  /-- Two operands with values of the wrong types, and the operator between them. -/
  | operands {op : BinaryOp} {x place y : Span} {v w : Value}
      (hx : evaluate (x.slice text) = .ok v) (hplace : place.slice text = op.symbol)
      (hy : evaluate (y.slice text) = .ok w)
      (hop : op.eval v w = .error (.invalidOperands op v.type w.type)) :
      NamesCulprit text ((LiteralFault.invalidOperands op v.type w.type).at [x, place, y])
  /-- An operator, and an operand with a value of the wrong type behind it. -/
  | operand {op : UnaryOp} {place x : Span} {v : Value}
      (hplace : place.slice text = op.symbol) (hx : evaluate (x.slice text) = .ok v)
      (hop : op.eval v = .error (.invalidOperand op v.type)) :
      NamesCulprit text ((LiteralFault.invalidOperand op v.type).at [place, x])
  /-- The sign of a division, and an operand with the value zero behind it. -/
  | divisor {op : BinaryOp} {place y : Span} (hop : op = .div ∨ op = .mod)
      (hplace : place.slice text = op.symbol)
      (hy : evaluate (y.slice text) = .ok (.integer .zero)) :
      NamesCulprit text (LiteralFault.divisionByZero.at [place, y])
  /-- A literal or an operation that is out of range by itself, all of it. -/
  | outOfRange {fault : LiteralFault} {s : Span}
      (hfault : fault = .integerTooLarge ∨ fault = .overflow)
      (hs : evaluate (s.slice text) = .error (fault.at [.whole (s.slice text)])) :
      NamesCulprit text (fault.at [s])
  /-- A name. -/
  | name {t : Token} (ht : t.StandsIn text) (hkind : t.kind = .name) :
      NamesCulprit text ((LiteralFault.unknownName t.lexeme (suggestions t.lexeme)).at [t.span])
  /-- A token of the kind that was found. -/
  | token {t : Token} (ht : t.StandsIn text) (expected : List TokenKind) :
      NamesCulprit text ((LiteralFault.unexpectedToken expected t.kind).at [t.span])
  /-- The end of the text. -/
  | atEnd : NamesCulprit text (LiteralFault.unexpectedEnd.at [.empty text.utf8ByteSize])
  /-- All of the text from a token on, behind an operand with a value. -/
  | trailing {x : Span} {v : Value} {t : Token} (hx : evaluate (x.slice text) = .ok v)
      (ht : t.StandsIn text) (hle : x.stop ≤ t.span.start) :
      NamesCulprit text (LiteralFault.trailingTokens.at [⟨t.span.start, text.utf8ByteSize⟩])

section Parts

variable {text : String} {t : Token}

lemma standsIn_of_mem (ht : t ∈ tokens text) : t.StandsIn text := by
  have hsingle : [t] <:+: tokens text := by
    obtain ⟨before, after, h⟩ := List.append_of_mem ht
    exact ⟨before, after, by rw [h, List.append_assoc, List.singleton_append]⟩
  have hlexeme : t.span.slice text = t.lexeme := (slice_of_mem_tokens ht).1
  obtain ⟨htokens, hwhole⟩ := tokens_slice hsingle (List.cons_ne_nil _ _)
  refine ⟨ht, hlexeme, ?_⟩
  simp only [List.head_cons, List.getLast_singleton, hlexeme] at htokens hwhole
  rw [htokens, ← hwhole]
  rfl

/-- The region of the sign of an operator holds its symbol. -/
lemma slice_of_operator {op : BinaryOp} (ht : t ∈ tokens text) (hkind : t.kind = .operator op) :
    t.span.slice text = op.symbol := by
  obtain ⟨hlexeme, hmatches⟩ := slice_of_mem_tokens ht
  rw [hkind] at hmatches
  rw [hlexeme]
  exact String.toList_injective hmatches

lemma slice_of_bang (ht : t ∈ tokens text) (hkind : t.kind = .bang) :
    t.span.slice text = UnaryOp.not.symbol := by
  obtain ⟨hlexeme, hmatches⟩ := slice_of_mem_tokens ht
  rw [hkind] at hmatches
  rw [hlexeme]
  exact String.toList_injective hmatches

end Parts

/-! ### Phrases that fail -/

/-- Only a division fails for a divisor of zero. -/
lemma BinaryOp.eval_eq_divisionByZero {op : BinaryOp} {v w : Value}
    (h : op.eval v w = .error .divisionByZero) :
    (op = .div ∨ op = .mod) ∧ w = .integer .zero := by
  unfold BinaryOp.eval at h
  split at h
  case h_14 a b =>
    split_ifs at h with hb
    · exact ⟨.inl rfl, congrArg _ (Number.ext hb)⟩
    · exact nomatch fitting_eq_error h
  case h_15 a b =>
    split_ifs at h with hb
    · exact ⟨.inr rfl, congrArg _ (Number.ext hb)⟩
    · exact nomatch fitting_eq_error h
  case h_11 | h_12 | h_13 => exact nomatch fitting_eq_error h
  all_goals cases h

namespace Phrase

variable {text : String} {p x y : Phrase} {sign : Token} {v w : Operand} {d : Diagnostic}

lemma outOfRange_namesCulprit {fault : LiteralFault} (hp : p.Grammatical)
    (h : p.tokens <:+: Innermost.tokens text)
    (hfault : fault = .integerTooLarge ∨ fault = .overflow)
    (hd : p.eval = .error (fault.at [p.span])) :
    (fault.at [p.span]).NamesCulprit text :=
  .outOfRange hfault (hp.evaluate_slice_of_eval_eq_error h hd)

/-- A fault of a literal is told of all its digits, with their sign. -/
lemma integer_namesCulprit {negative : Bool} {digits : String} (hp : p.Grammatical)
    (h : p.tokens <:+: Innermost.tokens text) (hfails : p.Fails d)
    (hd : integer negative digits p.span = .error d) : d.NamesCulprit text := by
  obtain rfl := integer_eq_error hd
  exact outOfRange_namesCulprit hp h (.inl rfl) hfails.eval_eq

lemma unary_namesCulprit {op : UnaryOp} (hp : (unary op sign x).Grammatical)
    (h : (unary op sign x).tokens <:+: Innermost.tokens text) (hx : x.Grammatical)
    (hsign : sign.span.slice text = op.symbol) (hv : x.eval = .ok v)
    (hd : op.apply sign.span v = .error d) : d.NamesCulprit text := by
  have hxtokens : x.tokens <:+: Innermost.tokens text :=
    (List.suffix_cons sign x.tokens).isInfix.trans h
  have heval : (unary op sign x).eval = .error d := (Fails.unary hv hd).eval_eq
  obtain ⟨fault, hfault, rfl⟩ := Operand.ofEval_eq_error hd
  obtain rfl | rfl := UnaryOp.eval_eq_error hfault
  · exact .operand hsign (hx.evaluate_slice_of_eval hxtokens hv) hfault
  · have hspan : sign.span.through v.span = (unary op sign x).span := by
      rw [span_of_eval hv, span]
    simp only [UnaryOp.faultSpans, hspan] at heval ⊢
    exact outOfRange_namesCulprit hp h (.inr rfl) heval

lemma binary_namesCulprit {op : BinaryOp} (hp : (binary op x sign y).Grammatical)
    (h : (binary op x sign y).tokens <:+: Innermost.tokens text) (hx : x.Grammatical)
    (hy : y.Grammatical) (hsign : sign.kind = .operator op) (hv : x.eval = .ok v)
    (hw : y.eval = .ok w) (hd : op.apply sign.span v w = .error d) : d.NamesCulprit text := by
  have hxtokens : x.tokens <:+: Innermost.tokens text := (List.prefix_append _ _).isInfix.trans h
  have hsigntokens : sign :: y.tokens <:+: Innermost.tokens text :=
    (List.suffix_append _ _).isInfix.trans h
  have hytokens : y.tokens <:+: Innermost.tokens text :=
    (List.suffix_cons _ _).isInfix.trans hsigntokens
  have hplace : sign.span.slice text = op.symbol :=
    slice_of_operator (hsigntokens.subset List.mem_cons_self) hsign
  have hyslice : evaluate (w.span.slice text) = .ok w.value :=
    hy.evaluate_slice_of_eval hytokens hw
  have heval : (binary op x sign y).eval = .error d := (Fails.binary hv hw hd).eval_eq
  obtain ⟨fault, hfault, rfl⟩ := Operand.ofEval_eq_error hd
  obtain rfl | rfl | rfl := BinaryOp.eval_eq_error hfault
  · exact .operands (hx.evaluate_slice_of_eval hxtokens hv) hplace hyslice hfault
  · obtain ⟨hop, hzero⟩ := BinaryOp.eval_eq_divisionByZero hfault
    exact .divisor hop hplace (hzero ▸ hyslice)
  · have hspan : v.span.through w.span = (binary op x sign y).span := by
      rw [span_of_eval hv, span_of_eval hw, span]
    simp only [BinaryOp.faultSpans, hspan] at heval ⊢
    exact outOfRange_namesCulprit hp h (.inr rfl) heval

/-- **A phrase that fails names the culprit.** -/
theorem Fails.namesCulprit (hd : p.Fails d) (hp : p.Grammatical)
    (h : p.tokens <:+: Innermost.tokens text) : d.NamesCulprit text := by
  cases hd with
  | integer ht hd => exact integer_namesCulprit hp h (.integer ht hd) hd
  | negative hd => exact integer_namesCulprit hp h (.negative hd) hd
  | unary hv hd =>
      cases hp with
      | not hsign hx hrank =>
          have hmem := h.subset List.mem_cons_self
          exact unary_namesCulprit (.not hsign hx hrank) h hx (slice_of_bang hmem hsign) hv hd
      | neg hsign hx hrank hhead =>
          have hmem := h.subset List.mem_cons_self
          exact unary_namesCulprit (.neg hsign hx hrank hhead) h hx (slice_of_operator hmem hsign)
            hv hd
  | binary hv hw hd =>
      cases hp with
      | binary hsign hx hy hxrank hyrank =>
          exact binary_namesCulprit (.binary hsign hx hy hxrank hyrank) h hx hy hsign hv hw hd

end Phrase

/-! ### Texts -/

/-- **The faults of the literal language name their culprits**, in the order in which these
stand in the text. -/
theorem evaluate_namesCulprit {text : String} {d : Diagnostic} (h : evaluate text = .error d) :
    d.NamesCulprit text ∧ d.spans.Pairwise fun a b => a.stop ≤ b.start := by
  have hjudged := h ▸ judged_evaluate text
  refine ⟨?_, (pointsInto_of_evaluate h).ordered⟩
  cases hjudged with
  | blamed hblamed =>
      cases hblamed with
      | atEnd => exact .atEnd
      | name ht hkind => exact .name (standsIn_of_mem ht) hkind
      | token ht expected => exact .token (standsIn_of_mem ht) expected
      | phrase hp htokens hfails => exact hfails.namesCulprit hp htokens
  | @trailing p x t rest hp =>
      have hfront : p.tokens <:+: tokens text := hp.tokens_eq ▸ (List.prefix_append _ _).isInfix
      have ht : t ∈ tokens text := by
        rw [hp.tokens_eq]
        exact List.mem_append_right _ List.mem_cons_self
      have hrow : Row text 0 (p.tokens ++ t :: rest) := hp.tokens_eq ▸ row_tokens text
      have hle : x.span.stop ≤ t.span.start := by
        rw [Phrase.span_of_eval hp.eval_eq, Phrase.stop_span]
        exact hrow.stop_le.2 _ (List.getLast_mem _)
      exact .trailing (hp.grammatical.evaluate_slice_of_eval hfront hp.eval_eq)
        (standsIn_of_mem ht) hle

/-- A group with a value, multiplied by a comparison of truth values. What is wrong further
on is not looked at. -/
theorem evaluate_namesCulprit_factor :
    let text := "(1 + -(2 * 3)) * (true == (4 < -5)) - (€"
    let d : Diagnostic :=
      (LiteralFault.invalidOperands .mul .integer .boolean).at [⟨0, 14⟩, ⟨15, 16⟩, ⟨17, 35⟩]
    evaluate text = .error d ∧ d.NamesCulprit text ∧
      d.spans.Pairwise fun a b => a.stop ≤ b.start := by
  intro text d
  have htext : evaluate text = .error d := by decide +kernel
  exact ⟨htext, evaluate_namesCulprit htext⟩

end Innermost
