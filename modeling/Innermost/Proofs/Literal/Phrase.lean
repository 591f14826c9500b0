import Innermost.Proofs.Literal.Derivation

/-!
Phrases: the expressions of the literal language, told by their structure.

* `Phrase`: an expression down to its tokens. `Phrase.Grammatical` tells the phrases that
  the language has: operators of one rank stand in a row from left to right, those of a
  greater rank inside, and a minus sign in front of digits belongs to them.
* `Phrase.eval`: the value of a phrase, put together from those of its parts, the left
  one first. No part is left out.
* `Phrase.Leads`: behind the tokens of a phrase, the evaluator has come to the value of the
  phrase. Every grammatical phrase leads there (`Grammatical.leads`), one lemma for each
  form of a phrase, whatever tokens follow that its operator leaves alone.
* `Grammatical.evaluate_eq`: so a text whose tokens are a phrase has the value of this phrase, or
  its fault at the same regions.
* `Phrase.HasValue`: the phrases that have a value, by their form.
-/

namespace Innermost

/-! ### Phrases -/

/-- An expression of the literal language, down to its tokens. -/
inductive Phrase where
  /-- A truth value, or digits. -/
  | literal (t : Token)
  /-- Digits with a minus sign that belongs to them. -/
  | negative (sign digits : Token)
  /-- An expression in parentheses. -/
  | parens (opening : Token) (x : Phrase) (closing : Token)
  /-- An operator before its operand. -/
  | unary (op : UnaryOp) (sign : Token) (x : Phrase)
  /-- An operator between its operands. -/
  | binary (op : BinaryOp) (x : Phrase) (sign : Token) (y : Phrase)

/-- The rank of what is one operand to every operator. -/
def operandRank : Nat := 6

lemma BinaryOp.rank_lt (op : BinaryOp) : op.rank < operandRank := by
  cases op <;> decide

/-- No operator has the rank of an operand. -/
lemma rests_operandRank (ls : List Lexeme) : Rests operandRank ls :=
  fun _ _ op _ => op.rank_lt

namespace Phrase

/-- The tokens of a phrase, in order. -/
def tokens : Phrase → List Token
  | literal t => [t]
  | negative sign digits => [sign, digits]
  | parens opening x closing => opening :: (x.tokens ++ [closing])
  | unary _ sign x => sign :: x.tokens
  | binary _ x sign y => x.tokens ++ sign :: y.tokens

/-- The rank of the operator that is applied last. -/
def rank : Phrase → Nat
  | binary op _ _ _ => op.rank
  | _ => operandRank

lemma rank_le (p : Phrase) : p.rank ≤ operandRank := by
  cases p with
  | binary op => exact op.rank_lt.le
  | _ => exact le_rfl

/-- The region that a phrase fills. -/
def span : Phrase → Span
  | literal t => t.span
  | negative sign digits => sign.span.through digits.span
  | parens opening _ closing => opening.span.through closing.span
  | unary _ sign x => sign.span.through x.span
  | binary _ x _ y => x.span.through y.span

/-- The phrases of the language. The operators of one rank associate to the left, and a
minus sign whose next token is an integer is part of that literal. -/
inductive Grammatical : Phrase → Prop where
  | truth {t : Token} {b : Bool} (ht : t.kind = .truth b) : Grammatical (literal t)
  | integer {t : Token} (ht : t.kind = .integer) : Grammatical (literal t)
  | negative {sign digits : Token} (hsign : sign.kind = .operator .sub)
      (hdigits : digits.kind = .integer) : Grammatical (negative sign digits)
  | parens {opening closing : Token} {x : Phrase} (hopening : opening.kind = .opening)
      (hx : Grammatical x) (hclosing : closing.kind = .closing) :
      Grammatical (parens opening x closing)
  | not {sign : Token} {x : Phrase} (hsign : sign.kind = .bang) (hx : Grammatical x)
      (hrank : x.rank = operandRank) : Grammatical (unary .not sign x)
  | neg {sign : Token} {x : Phrase} (hsign : sign.kind = .operator .sub) (hx : Grammatical x)
      (hrank : x.rank = operandRank) (hhead : ∀ t ∈ x.tokens.head?, t.kind ≠ .integer) :
      Grammatical (unary .neg sign x)
  | binary {op : BinaryOp} {x y : Phrase} {sign : Token} (hsign : sign.kind = .operator op)
      (hx : Grammatical x) (hy : Grammatical y) (hxrank : op.rank ≤ x.rank)
      (hyrank : op.rank < y.rank) : Grammatical (binary op x sign y)

lemma tokens_ne_nil (p : Phrase) : p.tokens ≠ [] := by
  cases p <;> simp [tokens]

/-- The value of a phrase with the region that the phrase fills, or the first fault of its
parts. -/
def eval : Phrase → Except Diagnostic Operand
  | literal t =>
      match t.kind with
      | .truth b => .ok ⟨.boolean b, t.span⟩
      | _ => Evaluation.integer false t.lexeme t.span
  | negative sign digits =>
      Evaluation.integer true digits.lexeme (sign.span.through digits.span)
  | parens opening x closing =>
      x.eval.map fun v => ⟨v.value, opening.span.through closing.span⟩
  | unary op sign x => do
      let v ← x.eval
      op.apply sign.span v
  | binary op x sign y => do
      let v ← x.eval
      let w ← y.eval
      op.apply sign.span v w

/-! ### The evaluator behind a phrase -/

open Evaluation

section Leads

variable {p x y : Phrase} {t sign opening closing digits : Token} {op : BinaryOp}
  {stop floor : Nat} {rest : List Token}

lemma eval_of_truth {b : Bool} (ht : t.kind = .truth b) :
    (literal t).eval = .ok ⟨.boolean b, t.span⟩ := by
  rw [eval]
  simp only [ht]

lemma eval_of_integer (ht : t.kind = .integer) :
    (literal t).eval = integer false t.lexeme t.span := by
  rw [eval]
  simp only [ht]

/-- Behind the tokens of the phrase, the evaluator has come to the value of the phrase, and
goes on with the operators of at least the rank `floor` that follow. -/
def Leads (stop : Nat) (p : Phrase) : Prop :=
  ∀ {floor : Nat} {rest : List Token}, floor ≤ p.rank →
    Rests (p.rank + 1) (rest.map Token.bare) →
    (operand stop (p.tokens ++ rest) >>= fun (x, us) => climb stop floor x us) =
      p.eval >>= fun x => climb stop floor x rest

lemma map_bind {α β γ : Type} (c : Except Diagnostic α) (f : α → β)
    (g : β → Except Diagnostic γ) : c.map f >>= g = c >>= fun a => g (f a) := by
  cases c <;> rfl

/-- A phrase that is one operand is taken up as such. -/
lemma Leads.operand_eq (h : p.Leads stop) (hrank : p.rank = operandRank) :
    operand stop (p.tokens ++ rest) = p.eval.map (·, rest) := by
  have hrests : Rests (p.rank + 1) (rest.map Token.bare) :=
    (rests_operandRank _).mono (hrank ▸ Nat.le_succ _)
  have hleads := h hrank.ge hrests
  simp only [climb_of_rests (rests_operandRank _)] at hleads
  calc operand stop (p.tokens ++ rest)
      = operand stop (p.tokens ++ rest) >>= pure := (bind_pure _).symm
    _ = p.eval >>= fun x => .ok (x, rest) := hleads
    _ = p.eval.map (·, rest) := by cases p.eval <;> rfl

/-- It is enough that the phrase is taken up as one operand. -/
lemma leads_of_operand_eq
    (h : ∀ rest, operand stop (p.tokens ++ rest) = p.eval.map (·, rest)) :
    p.Leads stop := by
  intro floor rest _ _
  rw [h, map_bind]

lemma leads_parens (hopening : opening.kind = .opening) (hclosing : closing.kind = .closing)
    (hx : x.Leads stop) : (parens opening x closing).Leads stop := by
  refine leads_of_operand_eq fun rest => ?_
  have hrests (floor : Nat) : Rests floor ((closing :: rest).map Token.bare) :=
    rests_cons (by simp [Token.bare, hclosing]) floor _
  have hclimb := hx (Nat.zero_le _) (hrests _)
  simp only [climb_of_rests (hrests 0)] at hclimb
  rw [tokens, List.cons_append, List.append_assoc, List.singleton_append,
    operand_of_opening hopening, ← bind_assoc, hclimb, eval, bind_assoc]
  cases x.eval with
  | error d => rfl
  | ok v =>
      simp only [bind, Except.bind, close, hclosing, if_true]
      rfl

/-- An operator and its operand are taken up as one operand. -/
lemma leads_unary {op : UnaryOp} (hsign : ∀ rest, Signs op sign (x.tokens ++ rest))
    (hx : x.Leads stop) (hrank : x.rank = operandRank) : (unary op sign x).Leads stop := by
  refine leads_of_operand_eq fun rest => ?_
  rw [tokens, List.cons_append, operand_of_sign (hsign rest), hx.operand_eq hrank, map_bind, eval]
  cases x.eval with
  | error d => rfl
  | ok v => cases hv : op.apply sign.span v <;> simp only [bind, Except.bind, hv] <;> rfl

/-- A minus sign is one in front of whatever does not begin with digits. -/
lemma signs_neg (hsign : sign.kind = .operator .sub)
    (hhead : ∀ t ∈ x.tokens.head?, t.kind ≠ .integer) (rest : List Token) :
    Signs .neg sign (x.tokens ++ rest) := by
  refine .neg hsign ?_
  rwa [List.head?_append_of_ne_nil _ x.tokens_ne_nil]

/-- The left operand comes first, the right one with the operators of a greater rank. -/
lemma leads_binary (hsign : sign.kind = .operator op) (hx : x.Leads stop) (hy : y.Leads stop)
    (hxrank : op.rank ≤ x.rank) (hyrank : op.rank < y.rank) :
    (binary op x sign y).Leads stop := by
  intro floor rest hfloor hrests
  have hassoc : (binary op x sign y).tokens ++ rest = x.tokens ++ sign :: (y.tokens ++ rest) := by
    simp [tokens]
  have hsignrests : Rests (x.rank + 1) ((sign :: (y.tokens ++ rest)).map Token.bare) := by
    intro l hl op' hop'
    obtain rfl := Option.some.inj hl
    obtain rfl : op = op' := TokenKind.operator.inj (hsign.symm.trans hop')
    exact Nat.lt_succ_of_le hxrank
  rw [hassoc, hx (hfloor.trans hxrank) hsignrests, eval, bind_assoc]
  refine bind_congr_ok fun v _ => ?_
  have hrests' : Rests (op.rank + 1) (rest.map Token.bare) := hrests
  have hclimb : (operand stop (y.tokens ++ rest) >>= fun (z, us) =>
      climb stop (op.rank + 1) z us) =
      y.eval >>= fun z => climb stop (op.rank + 1) z rest :=
    hy hyrank (hrests'.mono (by omega))
  simp only [climb_of_rests hrests'] at hclimb
  rw [climb_of_operator hsign hfloor, ← bind_assoc, hclimb, bind_assoc, bind_assoc]
  rfl

/-- **The evaluator follows the structure of phrases.** -/
theorem Grammatical.leads (h : p.Grammatical) (stop : Nat) : p.Leads stop := by
  induction h with
  | truth ht =>
      refine leads_of_operand_eq fun _ => ?_
      rw [tokens, List.singleton_append, operand_of_truth ht, eval_of_truth ht]
      rfl
  | integer ht =>
      refine leads_of_operand_eq fun _ => ?_
      rw [tokens, List.singleton_append, operand_of_integer ht, eval_of_integer ht]
  | negative hsign hdigits => exact leads_of_operand_eq fun _ => operand_of_negative hsign hdigits
  | parens hopening _ hclosing ih => exact leads_parens hopening hclosing ih
  | not hsign _ hrank ih => exact leads_unary (fun _ => .not hsign) ih hrank
  | neg hsign _ hrank hhead ih => exact leads_unary (signs_neg hsign hhead) ih hrank
  | binary hsign _ _ hxrank hyrank ihx ihy => exact leads_binary hsign ihx ihy hxrank hyrank

/-- **A text whose tokens are a phrase has the value of this phrase**, or its fault. -/
theorem Grammatical.evaluate_eq (h : p.Grammatical) {text : String}
    (htext : Innermost.tokens text = p.tokens) : evaluate text = p.eval.map Operand.value := by
  have hnil (floor : Nat) : Rests floor (([] : List Token).map Token.bare) := rests_nil floor
  have hexpression := h.leads text.utf8ByteSize (Nat.zero_le _) (hnil _)
  simp only [climb_of_rests (hnil 0), List.append_nil] at hexpression
  rw [Innermost.evaluate_eq, htext, hexpression]
  cases p.eval <;> rfl

end Leads

/-! ### Values -/

/-- The phrase has the value, in whatever region it stands. -/
def HasValue (p : Phrase) (v : Value) : Prop := ∃ x, p.eval = .ok x ∧ x.value = v

section Values

variable {p x y : Phrase} {t sign digits opening closing : Token} {v : Value}

lemma map_eval_eq_ok_iff : p.eval.map Operand.value = .ok v ↔ p.HasValue v := by
  rw [HasValue]
  cases p.eval <;> simp [Except.map]

lemma Grammatical.evaluate_eq_ok_iff (h : p.Grammatical) {text : String}
    (htext : Innermost.tokens text = p.tokens) : evaluate text = .ok v ↔ p.HasValue v := by
  rw [h.evaluate_eq htext, map_eval_eq_ok_iff]

lemma hasValue_truth {b : Bool} (ht : t.kind = .truth b) :
    (literal t).HasValue v ↔ v = .boolean b := by
  rw [HasValue, eval_of_truth ht]
  simp [eq_comm]

lemma hasValue_digits {negative : Bool} {digits : String} {span : Span} :
    (∃ x, integer negative digits span = .ok x ∧ x.value = v) ↔ ∃ n : Number,
      n.val = (if negative then -(Nat.ofDigitChars 10 digits.toList 0 : Int)
        else Nat.ofDigitChars 10 digits.toList 0) ∧ v = .integer n := by
  constructor
  · rintro ⟨x, hx, rfl⟩
    obtain ⟨n, hn, rfl⟩ := integer_eq_ok_iff.mp hx
    exact ⟨n, hn, rfl⟩
  · rintro ⟨n, hn, rfl⟩
    exact ⟨_, integer_eq_ok_iff.mpr ⟨n, hn, rfl⟩, rfl⟩

lemma hasValue_integer (ht : t.kind = .integer) :
    (literal t).HasValue v ↔ ∃ n : Number, n.val = t.bare.number ∧ v = .integer n := by
  rw [HasValue, eval_of_integer ht]
  exact hasValue_digits

lemma hasValue_negative :
    (negative sign digits).HasValue v ↔
      ∃ n : Number, n.val = -digits.bare.number ∧ v = .integer n :=
  hasValue_digits

lemma hasValue_parens : (parens opening x closing).HasValue v ↔ x.HasValue v := by
  rw [HasValue, HasValue, eval]
  cases x.eval <;> simp [Except.map]

lemma hasValue_unary {op : UnaryOp} :
    (unary op sign x).HasValue v ↔ ∃ u, x.HasValue u ∧ op.eval u = .ok v := by
  constructor
  · rintro ⟨z, h, rfl⟩
    obtain ⟨a, ha, h⟩ := bind_eq_ok h
    exact ⟨a.value, ⟨a, ha, rfl⟩, Operand.ofEval_eq_ok h⟩
  · rintro ⟨-, ⟨a, ha, rfl⟩, h⟩
    refine ⟨⟨v, sign.span.through a.span⟩, ?_, rfl⟩
    rw [eval, ha]
    exact UnaryOp.apply_of_ok h sign.span

lemma hasValue_binary {op : BinaryOp} :
    (binary op x sign y).HasValue v ↔
      ∃ u w, x.HasValue u ∧ y.HasValue w ∧ op.eval u w = .ok v := by
  constructor
  · rintro ⟨z, h, rfl⟩
    obtain ⟨a, ha, h⟩ := bind_eq_ok h
    obtain ⟨b, hb, h⟩ := bind_eq_ok h
    exact ⟨a.value, b.value, ⟨a, ha, rfl⟩, ⟨b, hb, rfl⟩, Operand.ofEval_eq_ok h⟩
  · rintro ⟨-, -, ⟨a, ha, rfl⟩, ⟨b, hb, rfl⟩, h⟩
    refine ⟨⟨v, a.span.through b.span⟩, ?_, rfl⟩
    rw [eval, ha, hb]
    exact BinaryOp.apply_of_ok h sign.span

end Values

/-! ### Parts of phrases -/

/-- A phrase and its operands, and theirs in turn. -/
def subphrases : Phrase → List Phrase
  | literal t => [literal t]
  | negative sign digits => [negative sign digits]
  | parens opening x closing => parens opening x closing :: x.subphrases
  | unary op sign x => unary op sign x :: x.subphrases
  | binary op x sign y => binary op x sign y :: (x.subphrases ++ y.subphrases)

section Parts

variable {p q : Phrase}

lemma mem_subphrases_self (p : Phrase) : p ∈ p.subphrases := by
  cases p <;> exact List.mem_cons_self

/-- The parts of a grammatical phrase are grammatical. -/
lemma Grammatical.of_mem (h : p.Grammatical) (hq : q ∈ p.subphrases) : q.Grammatical := by
  induction h with
  | truth ht => exact List.mem_singleton.mp hq ▸ .truth ht
  | integer ht => exact List.mem_singleton.mp hq ▸ .integer ht
  | negative hsign hdigits => exact List.mem_singleton.mp hq ▸ .negative hsign hdigits
  | parens hopening hx hclosing ih =>
      rcases List.mem_cons.mp hq with rfl | hq
      · exact .parens hopening hx hclosing
      · exact ih hq
  | not hsign hx hrank ih =>
      rcases List.mem_cons.mp hq with rfl | hq
      · exact .not hsign hx hrank
      · exact ih hq
  | neg hsign hx hrank hhead ih =>
      rcases List.mem_cons.mp hq with rfl | hq
      · exact .neg hsign hx hrank hhead
      · exact ih hq
  | binary hsign hx hy hxrank hyrank ihx ihy =>
      rcases List.mem_cons.mp hq with rfl | hq
      · exact .binary hsign hx hy hxrank hyrank
      · exact (List.mem_append.mp hq).elim ihx ihy

/-- The tokens of a part stand side by side in the phrase. -/
lemma tokens_isInfix_of_mem (hq : q ∈ p.subphrases) : q.tokens <:+: p.tokens := by
  induction p with
  | literal t | negative sign digits => exact List.mem_singleton.mp hq ▸ List.infix_rfl
  | parens opening x closing ih =>
      rcases List.mem_cons.mp hq with rfl | hq
      · exact List.infix_rfl
      · exact (ih hq).trans ⟨[opening], [closing], rfl⟩
  | unary op sign x ih =>
      rcases List.mem_cons.mp hq with rfl | hq
      · exact List.infix_rfl
      · exact (ih hq).trans (List.suffix_cons _ _).isInfix
  | binary op x sign y ihx ihy =>
      rcases List.mem_cons.mp hq with rfl | hq
      · exact List.infix_rfl
      · rcases List.mem_append.mp hq with hq | hq
        · exact (ihx hq).trans (List.prefix_append _ _).isInfix
        · exact (ihy hq).trans ⟨x.tokens ++ [sign], [], by simp [tokens]⟩

end Parts

/-! ### Regions of phrases -/

lemma start_span (p : Phrase) : p.span.start = (p.tokens.head p.tokens_ne_nil).span.start := by
  induction p with
  | literal t | negative sign digits => rfl
  | parens opening x closing ih | unary op sign x ih => rfl
  | binary op x sign y ihx ihy =>
      simp only [tokens, List.head_append_of_ne_nil x.tokens_ne_nil]
      exact ihx

lemma stop_span (p : Phrase) : p.span.stop = (p.tokens.getLast p.tokens_ne_nil).span.stop := by
  induction p with
  | literal t | negative sign digits => rfl
  | parens opening x closing ih => simp [tokens, span, Span.through]
  | unary op sign x ih =>
      simp only [tokens, List.getLast_cons x.tokens_ne_nil]
      exact ih
  | binary op x sign y ihx ihy =>
      have hne : sign :: y.tokens ≠ [] := List.cons_ne_nil _ _
      simp only [tokens, List.getLast_append_of_ne_nil _ hne, List.getLast_cons y.tokens_ne_nil]
      exact ihy

lemma span_of_ofEval {span : Span} {spans : LiteralFault → List Span}
    {result : Except LiteralFault Value} {x : Operand}
    (h : Operand.ofEval span spans result = .ok x) : x.span = span := by
  cases result with
  | ok v => exact congrArg Operand.span (Except.ok.inj h).symm
  | error fault => cases h

/-- A phrase with a value fills its region. -/
lemma span_of_eval {p : Phrase} {x : Operand} (h : p.eval = .ok x) : x.span = p.span := by
  induction p generalizing x with
  | literal t =>
      rw [eval] at h
      split at h
      · cases h
        rfl
      · obtain ⟨n, -, rfl⟩ := integer_eq_ok_iff.mp h
        rfl
  | negative sign digits =>
      obtain ⟨n, -, rfl⟩ := integer_eq_ok_iff.mp h
      rfl
  | parens opening y closing ih =>
      obtain ⟨v, -, rfl⟩ := map_eq_ok h
      rfl
  | unary op sign y ih =>
      obtain ⟨v, hv, h⟩ := bind_eq_ok h
      rw [span_of_ofEval h, ih hv, span]
  | binary op y sign z ihy ihz =>
      obtain ⟨v, hv, h⟩ := bind_eq_ok h
      obtain ⟨w, hw, h⟩ := bind_eq_ok h
      rw [span_of_ofEval h, ihy hv, ihz hw, span]

end Phrase

end Innermost
