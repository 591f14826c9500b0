import Innermost.Proofs.Literal.Climbing

/-!
The values of lexemes, told by rules.

* `Yields`: the rules by which an operand, or the operators after one, take up
  lexemes and come to a value. They leave open how a minus sign before digits is
  read, as a part of the literal or as an operation; both come to the same value.
* `Means`: all the lexemes are taken up by an operand and the operators after it.
* `evaluate_eq_ok_iff`: a text has the value that its lexemes mean. The evaluator
  follows the rules (`Evaluation.sound`), and it does so as far as they lead
  (`Evaluation.finds_of_yields`), one lemma for each rule.
-/

namespace Innermost

/-! ### Rules -/

/-- The integer that the digits of a lexeme denote. -/
def Lexeme.number (l : Lexeme) : Int := Nat.ofDigitChars 10 l.text.toList 0

/-- What is to be taken up. -/
inductive Stage where
  /-- An operand. -/
  | operand
  /-- The operators of at least the rank `floor` after the left operand `x`. -/
  | operators (floor : Nat) (x : Value)

/-- What is to be taken up stands in front, and comes to a value; the last
lexemes are left. -/
inductive Yields : Stage → List Lexeme → Value → List Lexeme → Prop where
  | truth {l : Lexeme} {rest : List Lexeme} {b : Bool} (hl : l.kind = .truth b) :
      Yields .operand (l :: rest) (.boolean b) rest
  | integer {l : Lexeme} {rest : List Lexeme} {n : Number} (hl : l.kind = .integer)
      (hn : n.val = l.number) : Yields .operand (l :: rest) (.integer n) rest
  | negative {l m : Lexeme} {rest : List Lexeme} {n : Number} (hl : l.kind = .operator .sub)
      (hm : m.kind = .integer) (hn : n.val = -m.number) :
      Yields .operand (l :: m :: rest) (.integer n) rest
  | parens {l m : Lexeme} {ls us rest : List Lexeme} {x v : Value} (hl : l.kind = .opening)
      (hx : Yields .operand ls x us) (hv : Yields (.operators 0 x) us v (m :: rest))
      (hm : m.kind = .closing) : Yields .operand (l :: ls) v rest
  | not {l : Lexeme} {ls rest : List Lexeme} {x v : Value} (hl : l.kind = .bang)
      (hx : Yields .operand ls x rest) (hv : UnaryOp.not.eval x = .ok v) :
      Yields .operand (l :: ls) v rest
  | neg {l : Lexeme} {ls rest : List Lexeme} {x v : Value} (hl : l.kind = .operator .sub)
      (hx : Yields .operand ls x rest) (hv : UnaryOp.neg.eval x = .ok v) :
      Yields .operand (l :: ls) v rest
  | stop {floor : Nat} {x : Value} {ls : List Lexeme} (h : Rests floor ls) :
      Yields (.operators floor x) ls x ls
  | apply {floor : Nat} {x y z x' v : Value} {l : Lexeme} {ls us ws rest : List Lexeme}
      {op : BinaryOp} (hl : l.kind = .operator op) (hop : floor ≤ op.rank)
      (hy : Yields .operand ls y us) (hz : Yields (.operators (op.rank + 1) y) us z ws)
      (hx : op.eval x z = .ok x') (hv : Yields (.operators floor x') ws v rest) :
      Yields (.operators floor x) (l :: ls) v rest

/-- An operand and the operators after it take up all the lexemes, and come to a
value. -/
def Means (ls : List Lexeme) (v : Value) : Prop :=
  ∃ x us, Yields .operand ls x us ∧ Yields (.operators 0 x) us v []

/-- No more lexemes are left than there were. -/
lemma Yields.length_le {s : Stage} {ls rest : List Lexeme} {v : Value}
    (h : Yields s ls v rest) : rest.length ≤ ls.length := by
  induction h with
  | truth | integer => exact Nat.le_succ _
  | negative => exact Nat.le_add_right _ 2
  | parens _ _ _ _ ihx ihv =>
      rw [List.length_cons] at ihv ⊢
      omega
  | not _ _ _ ih | neg _ _ _ ih => exact Nat.le_succ_of_le ih
  | stop => exact le_rfl
  | apply _ _ _ _ _ _ ihy ihz ihv =>
      rw [List.length_cons]
      omega

/-! ### Outcomes -/

/-- The computation comes to a result with the property `P`, or fails for a reason with the
property `E`. -/
inductive ComesTo {ε α : Type} (P : α → Prop) (E : ε → Prop) : Except ε α → Prop where
  | ok {a : α} (h : P a) : ComesTo P E (.ok a)
  | error {e : ε} (h : E e) : ComesTo P E (.error e)

section ComesTo

variable {ε α β : Type} {P P' : α → Prop} {Q : β → Prop} {E E' : ε → Prop} {c : Except ε α}

lemma ComesTo.bind {g : α → Except ε β} (h : ComesTo P E c)
    (hg : ∀ a, c = .ok a → P a → ComesTo Q E (g a)) : ComesTo Q E (c >>= g) := by
  cases h with
  | ok ha => exact hg _ rfl ha
  | error he => exact .error he

lemma ComesTo.map {f : α → β} (h : ComesTo P E c) (hf : ∀ a, P a → Q (f a)) :
    ComesTo Q E (c.map f) := by
  cases h with
  | ok ha => exact .ok (hf _ ha)
  | error he => exact .error he

lemma ComesTo.mono (h : ComesTo P E c) (hP : ∀ a, P a → P' a) (hE : ∀ e, E e → E' e) :
    ComesTo P' E' c := by
  cases h with
  | ok ha => exact .ok (hP _ ha)
  | error he => exact .error (hE _ he)

lemma ComesTo.ok_or_error (h : ComesTo P E c) :
    (∃ a, c = .ok a ∧ P a) ∨ ∃ e, c = .error e ∧ E e := by
  cases h with
  | @ok a ha => exact .inl ⟨a, rfl, ha⟩
  | @error e he => exact .inr ⟨e, rfl, he⟩

end ComesTo

lemma Operand.ofEval_eq_ok {span : Span} {spans : LiteralFault → List Span}
    {result : Except LiteralFault Value} {x : Operand}
    (h : Operand.ofEval span spans result = .ok x) : result = .ok x.value := by
  cases result with
  | error fault => cases h
  | ok v =>
      cases h
      rfl

lemma Operand.ofEval_eq_error {span : Span} {spans : LiteralFault → List Span}
    {result : Except LiteralFault Value} {d : Diagnostic}
    (h : Operand.ofEval span spans result = .error d) :
    ∃ fault, result = .error fault ∧ d = fault.at (spans fault) := by
  cases result with
  | ok v => cases h
  | error fault => exact ⟨fault, rfl, (Except.error.inj h).symm⟩

lemma UnaryOp.apply_of_ok {op : UnaryOp} {x : Operand} {v : Value} (h : op.eval x.value = .ok v)
    (span : Span) : op.apply span x = .ok ⟨v, span.through x.span⟩ := by
  rw [UnaryOp.apply, h]
  rfl

lemma BinaryOp.apply_of_ok {op : BinaryOp} {x y : Operand} {v : Value}
    (h : op.eval x.value y.value = .ok v) (span : Span) :
    op.apply span x y = .ok ⟨v, x.span.through y.span⟩ := by
  rw [BinaryOp.apply, h]
  rfl

lemma fitting_eq_ok_iff {n : Option Number} {v : Value} :
    fitting n = .ok v ↔ ∃ a, n = some a ∧ v = .integer a := by
  cases n with
  | none => simp [fitting]
  | some a => simp [fitting, eq_comm]

namespace Evaluation

variable {stop floor : Nat} {t u : Token} {ts us rest : List Token} {x y : Operand}

lemma integer_eq_ok_iff {negative : Bool} {digits : String} {span : Span} :
    integer negative digits span = .ok x ↔ ∃ n : Number,
      n.val = (if negative then -(Nat.ofDigitChars 10 digits.toList 0 : Int)
        else Nat.ofDigitChars 10 digits.toList 0) ∧ x = ⟨.integer n, span⟩ := by
  rw [integer]
  split
  · rename_i n hn
    rw [Number.ofInt?_eq_some_iff] at hn
    constructor
    · intro h
      exact ⟨n, hn, (Except.ok.inj h).symm⟩
    · rintro ⟨m, hm, rfl⟩
      rw [Number.ext (hn.trans hm.symm)]
  · rename_i hn
    simp only [reduceCtorEq, false_iff]
    rintro ⟨m, hm, -⟩
    rw [← hm, Number.ofInt?_val] at hn
    exact absurd hn (by simp)

lemma integer_eq_error {negative : Bool} {digits : String} {span : Span} {d : Diagnostic}
    (h : integer negative digits span = .error d) :
    d = LiteralFault.integerTooLarge.at [span] := by
  rw [integer] at h
  split at h
  · cases h
  · exact (Except.error.inj h).symm

/-! ### The evaluator follows the rules -/

/-- An operand in parentheses ends at `)`. -/
lemma close_eq_ok {span : Span} (h : bare (close stop span x ts) = .ok (y, rest)) :
    ∃ t, ts = t :: rest ∧ t.kind = .closing ∧ x.value = y.value := by
  cases ts with
  | nil => cases h
  | cons t ts =>
      by_cases ht : t.kind = .closing
      · rw [close, if_pos ht] at h
        cases h
        exact ⟨t, rfl, ht, rfl⟩
      · rw [close, if_neg ht] at h
        cases h

/-- What is found at the start of the tokens `ts` is taken up there, and comes to its value. -/
def Sound (s : Stage) (ts : List Token) (r : Except Diagnostic Found) : Prop :=
  ∀ x rest, r = .ok (x, rest) → Yields s (ts.map Token.bare) x.value (rest.map Token.bare)

/-- What the evaluator finds is what the rules say. -/
theorem sound (stop : Nat) : (∀ ts, Sound .operand ts (operand stop ts)) ∧
    ∀ floor x ts, Sound (.operators floor x.value) ts (climb stop floor x ts) := by
  refine reading_induction (P := Sound .operand)
    (Q := fun floor x => Sound (.operators floor x.value)) ?ended ?truth ?digits ?negative
    ?parens ?sign ?refused ?rests ?operator
  case ended => exact fun _ _ h => nomatch h
  case truth =>
      intro t ts b ht x rest h
      cases h
      exact .truth ht
  case digits =>
      intro t ts ht x rest h
      obtain ⟨x', hx, h⟩ := map_eq_ok h
      obtain ⟨n, hn, rfl⟩ := integer_eq_ok_iff.mp hx
      cases h
      exact .integer ht hn
  case negative =>
      intro t u us ht hu x rest h
      obtain ⟨x', hx, h⟩ := map_eq_ok h
      obtain ⟨n, hn, rfl⟩ := integer_eq_ok_iff.mp hx
      cases h
      exact .negative ht hu hn
  case parens =>
      intro t ts ht ihx ihv x rest h
      obtain ⟨⟨y, us⟩, hy, h⟩ := bind_eq_ok h
      obtain ⟨⟨z, ws⟩, hz, h⟩ := bind_eq_ok h
      obtain ⟨u, rfl, hu, hval⟩ := close_eq_ok h
      exact .parens ht (ihx y us hy) (hval ▸ ihv y us hy z _ hz) hu
  case sign =>
      intro op t ts hsign ih x rest h
      obtain ⟨⟨y, us⟩, hy, h⟩ := bind_eq_ok h
      obtain ⟨x', hx, h⟩ := bind_eq_ok h
      cases h
      have hval := Operand.ofEval_eq_ok hx
      cases hsign with
      | not ht => exact .not ht (ih y _ hy) hval
      | neg ht _ => exact .neg ht (ih y _ hy) hval
  case refused => exact fun _ _ _ h => nomatch h
  case rests =>
      intro floor x ts hrests y rest h
      cases h
      exact .stop hrests
  case operator =>
      intro floor x t ts op ht hop ihy ihz ihv v rest h
      obtain ⟨⟨y, us⟩, hy, h⟩ := bind_eq_ok h
      obtain ⟨⟨z, ws⟩, hz, h⟩ := bind_eq_ok h
      obtain ⟨x', hx, h⟩ := bind_eq_ok h
      exact .apply ht hop (ihy y us hy) (ihz y us hy z ws hz) (Operand.ofEval_eq_ok hx)
        (ihv y us z ws x' hy hz v rest h)

lemma yields_of_operand (h : operand stop ts = .ok (x, rest)) :
    Yields .operand (ts.map Token.bare) x.value (rest.map Token.bare) :=
  (sound stop).1 ts x rest h

lemma yields_of_climb (h : climb stop floor x ts = .ok (y, rest)) :
    Yields (.operators floor x.value) (ts.map Token.bare) y.value (rest.map Token.bare) :=
  (sound stop).2 floor x ts y rest h

/-! ### The rules lead the evaluator -/

/-- The evaluator finds the value `v` and leaves the lexemes `rest`. -/
def Finds (stop : Nat) : Stage → List Token → Value → List Lexeme → Prop
  | .operand, ts, v, rest =>
      ∃ x us, operand stop ts = .ok (x, us) ∧ x.value = v ∧ us.map Token.bare = rest
  | .operators floor w, ts, v, rest => ∀ x : Operand, x.value = w →
      ∃ y us, climb stop floor x ts = .ok (y, us) ∧ y.value = v ∧ us.map Token.bare = rest

section Rules

variable {ls vs ws : List Lexeme} {m : Lexeme} {w v : Value}

lemma finds_integer {n : Number} (ht : t.kind = .integer) (hn : n.val = t.bare.number) :
    Finds stop .operand (t :: ts) (.integer n) (ts.map Token.bare) := by
  have hx : integer false t.lexeme t.span = .ok ⟨.integer n, t.span⟩ :=
    integer_eq_ok_iff.mpr ⟨n, hn, rfl⟩
  exact ⟨_, ts, by rw [operand_of_integer ht, hx]; rfl, rfl, rfl⟩

lemma finds_negative {n : Number} (ht : t.kind = .operator .sub) (hu : u.kind = .integer)
    (hn : n.val = -u.bare.number) :
    Finds stop .operand (t :: u :: us) (.integer n) (us.map Token.bare) := by
  have hx : integer true u.lexeme (t.span.through u.span) =
      .ok ⟨.integer n, t.span.through u.span⟩ := integer_eq_ok_iff.mpr ⟨n, hn, rfl⟩
  exact ⟨_, us, by rw [operand_of_negative ht hu, hx]; rfl, rfl, rfl⟩

lemma finds_parens (ht : t.kind = .opening) (hm : m.kind = .closing)
    (hx : Finds stop .operand ts w vs)
    (hv : ∀ us : List Token, us.map Token.bare = vs →
      Finds stop (.operators 0 w) us v (m :: ls)) :
    Finds stop .operand (t :: ts) v ls := by
  obtain ⟨x, us, hread, hval, hus⟩ := hx
  obtain ⟨y, us', hclimb, hval', hus'⟩ := hv us hus x hval
  obtain ⟨u, rest, rfl, rfl, rfl⟩ := List.map_eq_cons_iff.mp hus'
  have hu : u.kind = .closing := hm
  refine ⟨⟨y.value, t.span.through u.span⟩, rest, ?_, hval', rfl⟩
  rw [operand_of_opening ht, hread]
  simp only [bind, Except.bind, hclimb, close, hu, if_true]
  rfl

lemma finds_sign {op : UnaryOp} (hsign : Signs op t ts) (hx : Finds stop .operand ts w ls)
    (hv : op.eval w = .ok v) : Finds stop .operand (t :: ts) v ls := by
  obtain ⟨x, us, hread, rfl, hus⟩ := hx
  refine ⟨⟨v, t.span.through x.span⟩, us, ?_, rfl, hus⟩
  rw [operand_of_sign hsign, hread]
  simp only [bind, Except.bind, UnaryOp.apply_of_ok hv]

/-- A minus sign before an integer may be taken as an operation. -/
lemma negative_of_neg {l : Lexeme} (hl : l.kind = .integer) (hw : Yields .operand (l :: ls) w vs)
    (hv : UnaryOp.neg.eval w = .ok v) :
    ls = vs ∧ ∃ n : Number, v = .integer n ∧ n.val = -l.number := by
  cases hw with
  | @integer _ _ n _ hn =>
      rw [UnaryOp.eval, fitting_eq_ok_iff] at hv
      obtain ⟨m, hm, rfl⟩ := hv
      rw [Number.neg?, Number.ofInt?_eq_some_iff] at hm
      exact ⟨rfl, m, rfl, by rw [hm, hn]⟩
  | truth hl' | negative hl' | parens hl' | not hl' | neg hl' =>
      rw [hl] at hl'
      cases hl'

lemma finds_apply {op : BinaryOp} {y z w' : Value} (ht : t.kind = .operator op)
    (hop : floor ≤ op.rank) (hy : Finds stop .operand ts y vs)
    (hz : ∀ us : List Token, us.map Token.bare = vs →
      Finds stop (.operators (op.rank + 1) y) us z ws)
    (hw : op.eval w z = .ok w')
    (hv : ∀ us : List Token, us.map Token.bare = ws →
      Finds stop (.operators floor w') us v ls) :
    Finds stop (.operators floor w) (t :: ts) v ls := by
  intro x hval
  obtain ⟨y', us, hread, hy', hus⟩ := hy
  obtain ⟨z', us', hclimb, rfl, hus'⟩ := hz us hus y' hy'
  have happly := BinaryOp.apply_of_ok (hval ▸ hw) t.span
  obtain ⟨v', rest, hrest, hv', hls⟩ := hv us' hus' ⟨w', x.span.through z'.span⟩ rfl
  refine ⟨v', rest, ?_, hv', hls⟩
  rw [climb_of_operator ht hop, hread]
  simp only [bind, Except.bind, hclimb, happly, hrest]

end Rules

/-- As far as the rules lead, the evaluator follows. -/
theorem finds_of_yields (stop : Nat) {s : Stage} {ls rest : List Lexeme} {v : Value}
    (h : Yields s ls v rest) {ts : List Token} (hts : ts.map Token.bare = ls) :
    Finds stop s ts v rest := by
  induction h generalizing ts with
  | stop h =>
      intro x hx
      exact ⟨x, ts, climb_of_rests (hts ▸ h), hx, hts⟩
  | truth hl =>
      obtain ⟨t, us, rfl, rfl, rfl⟩ := List.map_eq_cons_iff.mp hts
      exact ⟨_, us, operand_of_truth hl, rfl, rfl⟩
  | integer hl hn =>
      obtain ⟨t, us, rfl, rfl, rfl⟩ := List.map_eq_cons_iff.mp hts
      exact finds_integer hl hn
  | negative hl hm hn =>
      obtain ⟨t, us', rfl, rfl, hus'⟩ := List.map_eq_cons_iff.mp hts
      obtain ⟨u, us, rfl, rfl, rfl⟩ := List.map_eq_cons_iff.mp hus'
      exact finds_negative hl hm hn
  | parens hl hx hv hm ihx ihv =>
      obtain ⟨t, us, rfl, rfl, rfl⟩ := List.map_eq_cons_iff.mp hts
      exact finds_parens hl hm (ihx rfl) fun _ => ihv
  | not hl hx hv ih =>
      obtain ⟨t, us, rfl, rfl, rfl⟩ := List.map_eq_cons_iff.mp hts
      exact finds_sign (.not hl) (ih rfl) hv
  | neg hl hx hv ih =>
      obtain ⟨t, us, rfl, rfl, rfl⟩ := List.map_eq_cons_iff.mp hts
      cases us with
      | nil => cases hx
      | cons u us =>
          by_cases hu : u.kind = .integer
          · obtain ⟨rfl, n, rfl, hn⟩ := negative_of_neg hu hx hv
            exact finds_negative hl hu hn
          · refine finds_sign (.neg hl fun w hw => ?_) (ih rfl) hv
            exact Option.some.inj hw ▸ hu
  | apply hl hop hy hz hx hv ihy ihz ihv =>
      obtain ⟨t, us, rfl, rfl, rfl⟩ := List.map_eq_cons_iff.mp hts
      exact finds_apply hl hop (ihy rfl) (fun _ => ihz) hx fun _ => ihv

end Evaluation

/-- **A text has the value that its lexemes mean.** -/
theorem evaluate_eq_ok_iff {text : String} {v : Value} :
    evaluate text = .ok v ↔ Means (lexemes text.toList) v := by
  rw [← bare_tokens, evaluate_eq]
  constructor
  · intro h
    obtain ⟨⟨y, rest⟩, hread, h⟩ := bind_eq_ok h
    cases rest with
    | cons t ts => cases h
    | nil =>
        cases h
        obtain ⟨⟨x, us⟩, hx, hy⟩ := bind_eq_ok hread
        exact ⟨x.value, us.map Token.bare, Evaluation.yields_of_operand hx,
          Evaluation.yields_of_climb hy⟩
  · rintro ⟨w, ls, hw, hv⟩
    obtain ⟨x, us, hread, hval, rfl⟩ := Evaluation.finds_of_yields text.utf8ByteSize hw rfl
    obtain ⟨y, rest, hclimb, rfl, hrest⟩ :=
      Evaluation.finds_of_yields text.utf8ByteSize hv rfl x hval
    rw [List.map_eq_nil_iff] at hrest
    subst hrest
    simp only [bind, Except.bind, hread, hclimb]
    rfl

end Innermost
