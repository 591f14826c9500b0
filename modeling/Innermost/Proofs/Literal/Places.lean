import Innermost.Proofs.Literal.Derivation

/-!
The places of tokens decide where a fault is shown, and nothing else.

* `Alike`: two computations that come to related results, or fail for the same cause,
  which each shows at regions of its own.
* `placeless`: on tokens that differ in their places alone, operands are alike, and so is
  what climbing makes of them. Each step of the evaluator looks at the kinds and lexemes
  of tokens and at the values of operands, and hands regions on without a look.
* `evaluate_alike`: texts with the same lexemes have the same value or the same fault.
-/

namespace Innermost

/-! ### Results apart from regions -/

/-- Two computations come to results that `R` relates, or fail for the same cause. -/
inductive Alike {α : Type} (R : α → α → Prop) :
    Except Diagnostic α → Except Diagnostic α → Prop where
  | ok {a b : α} (h : R a b) : Alike R (.ok a) (.ok b)
  | error {d d' : Diagnostic} (h : d.cause = d'.cause) : Alike R (.error d) (.error d')

/-- Computations that are alike may be gone on with, if what follows is alike on related
results. -/
lemma Alike.bind {α β : Type} {R : α → α → Prop} {S : β → β → Prop}
    {c c' : Except Diagnostic α} {g g' : α → Except Diagnostic β} (h : Alike R c c')
    (hg : ∀ a b, c = .ok a → R a b → Alike S (g a) (g' b)) : Alike S (c >>= g) (c' >>= g') := by
  cases h with
  | ok hab => exact hg _ _ rfl hab
  | error hcause => exact .error hcause

lemma Alike.map {α β : Type} {R : α → α → Prop} {S : β → β → Prop} {c c' : Except Diagnostic α}
    {g g' : α → β} (h : Alike R c c') (hg : ∀ {a b}, R a b → S (g a) (g' b)) :
    Alike S (c.map g) (c'.map g') := by
  cases h with
  | ok hab => exact .ok (hg hab)
  | error hcause => exact .error hcause

lemma Alike.mapError_eq {α : Type} {c c' : Except Diagnostic α} (h : Alike Eq c c') :
    c.mapError Diagnostic.cause = c'.mapError Diagnostic.cause := by
  cases h with
  | ok hab => rw [hab]
  | error hcause => exact congrArg Except.error hcause

/-- Operands with the same value. -/
def SameValue (x x' : Operand) : Prop := x.value = x'.value

/-- Operands with the same value, in front of tokens that differ in their places
alone. -/
def SameReading (r r' : Operand × List Token) : Prop :=
  SameValue r.1 r'.1 ∧ r.2.map Token.bare = r'.2.map Token.bare

lemma Token.bare_eq_bare_iff {t t' : Token} :
    t.bare = t'.bare ↔ t.kind = t'.kind ∧ t.lexeme = t'.lexeme := by
  rw [Token.bare, Token.bare, Lexeme.mk.injEq]

/-- Tokens that differ in their places alone are as many. -/
lemma exists_cons_of_map_bare_eq {t : Token} {ts ts' : List Token}
    (h : (t :: ts).map Token.bare = ts'.map Token.bare) :
    ∃ t' us, ts' = t' :: us ∧ t.kind = t'.kind ∧ t.lexeme = t'.lexeme ∧
      ts.map Token.bare = us.map Token.bare := by
  rw [List.map_cons, eq_comm, List.map_eq_cons_iff] at h
  obtain ⟨t', us, rfl, ht, hus⟩ := h
  obtain ⟨hkind, hlexeme⟩ := Token.bare_eq_bare_iff.mp ht.symm
  exact ⟨t', us, rfl, hkind, hlexeme, hus.symm⟩

/-! ### Operations -/

lemma Operand.ofEval_alike {span span' : Span} {spans spans' : LiteralFault → List Span}
    (result : Except LiteralFault Value) :
    Alike SameValue (Operand.ofEval span spans result) (Operand.ofEval span' spans' result) := by
  cases result with
  | ok v => exact .ok rfl
  | error fault => exact .error rfl

lemma UnaryOp.apply_alike (op : UnaryOp) {span span' : Span} {x x' : Operand}
    (h : SameValue x x') : Alike SameValue (op.apply span x) (op.apply span' x') := by
  rw [UnaryOp.apply, UnaryOp.apply, h]
  exact Operand.ofEval_alike _

lemma BinaryOp.apply_alike (op : BinaryOp) {span span' : Span} {x x' y y' : Operand}
    (hx : SameValue x x') (hy : SameValue y y') :
    Alike SameValue (op.apply span x y) (op.apply span' x' y') := by
  rw [BinaryOp.apply, BinaryOp.apply, hx, hy]
  exact Operand.ofEval_alike _

namespace Evaluation

variable {stop stop' floor : Nat} {t t' : Token} {ts ts' : List Token} {x x' : Operand}

lemma integer_alike {span span' : Span} (negative : Bool) (digits : String) :
    Alike SameValue (integer negative digits span) (integer negative digits span') := by
  rw [integer, integer]
  split
  · exact .ok rfl
  · exact .error rfl

lemma atEnd_alike {α : Type} {R : α → α → Prop} : Alike R (atEnd stop) (atEnd stop') :=
  .error rfl

/-- A literal is alike, wherever it stands. -/
lemma map_integer_alike {span span' : Span} (negative : Bool) (digits : String)
    (h : ts.map Token.bare = ts'.map Token.bare) :
    Alike SameReading ((integer negative digits span).map (·, ts))
      ((integer negative digits span').map (·, ts')) :=
  (integer_alike negative digits).map fun hx => ⟨hx, h⟩

lemma close_alike {opening opening' : Span} (hx : SameValue x x')
    (h : ts.map Token.bare = ts'.map Token.bare) :
    Alike SameReading (bare (close stop opening x ts)) (bare (close stop' opening' x' ts')) := by
  cases ts with
  | nil =>
      obtain rfl : ts' = [] := by simpa using h.symm
      exact .error rfl
  | cons t ts =>
      obtain ⟨t', us, rfl, hkind, -, hus⟩ := exists_cons_of_map_bare_eq h
      rw [close, close, hkind]
      split_ifs
      · exact .ok ⟨hx, hus⟩
      · exact .error rfl

/-! ### Steps of the evaluator -/

/-- A sign is one wherever it stands. -/
lemma Signs.of_bare {op : UnaryOp} (h : Signs op t ts) (ht : t.kind = t'.kind)
    (hts : ts.map Token.bare = ts'.map Token.bare) : Signs op t' ts' := by
  cases h with
  | not hkind => exact .not (ht ▸ hkind)
  | neg hkind hhead =>
      refine .neg (ht ▸ hkind) fun u' hu' => ?_
      cases ts' with
      | nil => cases hu'
      | cons v' vs' =>
          obtain ⟨v, vs, rfl, hv, -⟩ := exists_cons_of_map_bare_eq hts.symm
          exact Option.some.inj hu' ▸ hv ▸ hhead v rfl

/-- A token is refused wherever it stands. -/
lemma Refuses.exists_of_bare {d : Diagnostic} (h : Refuses t d) (ht : t.kind = t'.kind)
    (hlexeme : t.lexeme = t'.lexeme) : ∃ d', Refuses t' d' ∧ d.cause = d'.cause := by
  cases h with
  | name hkind => exact ⟨_, .name (ht ▸ hkind), by rw [hlexeme]; rfl⟩
  | unexpected hkind hname => exact ⟨_, .unexpected (ht ▸ hkind) (ht ▸ hname), by rw [ht]; rfl⟩

/-- **Places make no difference**: tokens that differ in their places alone are evaluated
alike. -/
theorem placeless (stop stop' : Nat) :
    (∀ ts ts', ts.map Token.bare = ts'.map Token.bare →
      Alike SameReading (operand stop ts) (operand stop' ts')) ∧
    ∀ floor x ts x' ts', SameValue x x' → ts.map Token.bare = ts'.map Token.bare →
      Alike SameReading (climb stop floor x ts) (climb stop' floor x' ts') := by
  refine reading_induction
    (P := fun ts r => ∀ ts', ts.map Token.bare = ts'.map Token.bare →
      Alike SameReading r (operand stop' ts'))
    (Q := fun floor x ts r => ∀ x' ts', SameValue x x' → ts.map Token.bare = ts'.map Token.bare →
      Alike SameReading r (climb stop' floor x' ts'))
    ?ended ?truth ?digits ?negative ?parens ?sign ?refused ?rests ?operator
  case ended =>
      intro ts' h
      obtain rfl : ts' = [] := by simpa using h.symm
      rw [operand_nil]
      exact atEnd_alike
  case truth =>
      intro t ts b ht ts' h
      obtain ⟨t', us, rfl, hkind, -, hus⟩ := exists_cons_of_map_bare_eq h
      rw [operand_of_truth (hkind ▸ ht)]
      exact .ok ⟨rfl, hus⟩
  case digits =>
      intro t ts ht ts' h
      obtain ⟨t', us, rfl, hkind, hlexeme, hus⟩ := exists_cons_of_map_bare_eq h
      rw [operand_of_integer (hkind ▸ ht), hlexeme]
      exact map_integer_alike false _ hus
  case negative =>
      intro t u us ht hu ts' h
      obtain ⟨t', us', rfl, hkind, -, hus'⟩ := exists_cons_of_map_bare_eq h
      obtain ⟨u', vs, rfl, hukind, hlexeme, hvs⟩ := exists_cons_of_map_bare_eq hus'
      rw [operand_of_negative (hkind ▸ ht) (hukind ▸ hu), hlexeme]
      exact map_integer_alike true _ hvs
  case parens =>
      intro t ts ht ihx ihv ts' h
      obtain ⟨t', us', rfl, hkind, -, hus'⟩ := exists_cons_of_map_bare_eq h
      rw [operand_of_opening (hkind ▸ ht)]
      refine (ihx us' hus').bind fun (x, us) (x', vs) hx hread => ?_
      exact (ihv x us hx x' vs hread.1 hread.2).bind fun _ _ _ hclimb =>
        close_alike hclimb.1 hclimb.2
  case sign =>
      intro op t ts hsign ih ts' h
      obtain ⟨t', us', rfl, hkind, -, hus'⟩ := exists_cons_of_map_bare_eq h
      rw [operand_of_sign (hsign.of_bare hkind hus')]
      exact (ih us' hus').bind fun _ _ _ hread =>
        (op.apply_alike hread.1).bind fun _ _ _ hx => .ok ⟨hx, hread.2⟩
  case refused =>
      intro t ts d hd ts' h
      obtain ⟨t', us', rfl, hkind, hlexeme, -⟩ := exists_cons_of_map_bare_eq h
      obtain ⟨d', hd', hcause⟩ := hd.exists_of_bare hkind hlexeme
      rw [operand_of_refuses hd']
      exact .error hcause
  case rests =>
      intro floor x ts hrests x' ts' hx h
      rw [climb_of_rests (h ▸ hrests)]
      exact .ok ⟨hx, h⟩
  case operator =>
      intro floor x t ts op ht hop ihy ihz ihv x' ts' hx h
      obtain ⟨t', us', rfl, hkind, -, hus'⟩ := exists_cons_of_map_bare_eq h
      rw [climb_of_operator (hkind ▸ ht) hop]
      refine (ihy us' hus').bind fun (y, us) (y', vs) hy hread => ?_
      refine (ihz y us hy y' vs hread.1 hread.2).bind fun (z, ws) (z', ws') hz hright => ?_
      exact (op.apply_alike hx hright.1).bind fun x x' _ hx' =>
        ihv y us z ws x hy hz x' ws' hx' hright.2

/-- Where an expression ends, and what is left of the text, is told by the tokens apart from
their places. -/
lemma complete_alike {a b : Found} (h : SameReading a b) :
    Alike Eq (complete stop a) (complete stop' b) := by
  obtain ⟨x, us⟩ := a
  obtain ⟨x', us'⟩ := b
  obtain ⟨hx, hus⟩ := h
  cases us with
  | nil =>
      obtain rfl : us' = [] := by simpa using hus.symm
      exact .ok hx
  | cons t us =>
      obtain ⟨t', vs, rfl, -⟩ := exists_cons_of_map_bare_eq hus
      exact .error rfl

end Evaluation

/-- Texts with the same lexemes have the same value, or fail for the same cause. -/
theorem evaluate_alike {text text' : String}
    (h : (tokens text).map Token.bare = (tokens text').map Token.bare) :
    Alike Eq (evaluate text) (evaluate text') := by
  obtain ⟨hoperand, hclimb⟩ := Evaluation.placeless text.utf8ByteSize text'.utf8ByteSize
  rw [evaluate_eq, evaluate_eq]
  refine Alike.bind ?_ fun _ _ _ hread => Evaluation.complete_alike hread
  exact (hoperand _ _ h).bind fun _ _ _ hread => hclimb 0 _ _ _ _ hread.1 hread.2

end Innermost
