import Innermost.Proofs.Literal.Lexeme

/-!
Climbing over the ranks of operators.

* `Evaluation.operand` and `Evaluation.climb` are what the evaluator finds, without
  what is known of the number of tokens that it leaves.
* `climb_bind_climb`: operators may be taken up in turns, the tighter ones first. So
  the loop that lets ever tighter operators take a right operand comes to what climbing
  at the next rank comes to (`bare_tighter`), and one loop is left
  (`climb_of_operator`).
* `reading_induction`: what the evaluator does with tokens, with one case for each way
  in which they begin. What is to be known of all that it finds is shown by this.
-/

namespace Innermost

/-! ### Results that are used -/

section Results

variable {α β : Type} {c : Except Diagnostic α}

lemma bind_eq_ok {g : α → Except Diagnostic β} {b : β} (h : c >>= g = .ok b) :
    ∃ a, c = .ok a ∧ g a = .ok b := by
  cases c with
  | error d => cases h
  | ok a => exact ⟨a, rfl, h⟩

lemma map_eq_ok {g : α → β} {b : β} (h : c.map g = .ok b) : ∃ a, c = .ok a ∧ g a = b := by
  cases c with
  | error d => cases h
  | ok a => exact ⟨a, rfl, Except.ok.inj h⟩

/-- What is done with a result matters only for the result that there is. -/
lemma bind_congr_ok {g h : α → Except Diagnostic β} (hgh : ∀ a, c = .ok a → g a = h a) :
    c >>= g = c >>= h := by
  cases c with
  | error d => rfl
  | ok a => exact hgh a rfl

end Results

/-! ### Operators that are left alone -/

/-- Whether operators of at least the rank `floor` leave the lexemes `ls`
alone. -/
def Rests (floor : Nat) (ls : List Lexeme) : Prop :=
  ∀ l ∈ ls.head?, ∀ op, l.kind = .operator op → op.rank < floor

lemma rests_nil (floor : Nat) : Rests floor [] := fun _ h => absurd h (by simp)

/-- A lexeme other than an operator is left alone. -/
lemma rests_cons {l : Lexeme} (h : ∀ op, l.kind ≠ .operator op) (floor : Nat) (ls : List Lexeme) :
    Rests floor (l :: ls) := by
  intro m hm op hop
  obtain rfl := Option.some.inj hm
  exact absurd hop (h op)

lemma Rests.mono {floor floor' : Nat} {ls : List Lexeme} (h : Rests floor ls)
    (hle : floor ≤ floor') : Rests floor' ls := fun l hl op hop =>
  (h l hl op hop).trans_le hle

namespace Evaluation

variable {stop floor rank : Nat} {t u : Token} {ts us : List Token} {x y : Operand} {op : BinaryOp}

/-- Only an operator of at least the rank `floor` is not left alone. -/
lemma exists_operator_of_not_rests (h : ¬ Rests floor (ts.map Token.bare)) :
    ∃ t us op, ts = t :: us ∧ t.kind = .operator op ∧ floor ≤ op.rank := by
  cases ts with
  | nil => exact absurd (rests_nil floor) h
  | cons t us =>
      simp only [Rests, List.map_cons, List.head?_cons, Option.mem_def, Option.some.injEq,
        forall_eq', not_forall, not_lt] at h
      obtain ⟨op, ht, hop⟩ := h
      exact ⟨t, us, op, rfl, ht, hop⟩

lemma operator?_of_operator (ht : t.kind = .operator op) (hop : floor ≤ op.rank) :
    operator? floor (t :: ts) = some (op, t.span, ⟨ts, Nat.lt_succ_self _⟩) := by
  rw [operator?]
  simp only [ht, hop, if_true]

lemma operator?_of_rests (h : Rests floor (ts.map Token.bare)) : operator? floor ts = none := by
  cases ts with
  | nil => rfl
  | cons t ts =>
      rw [operator?]
      split
      · rename_i op ht
        have hlt := h t.bare (by simp) op ht
        rw [if_neg (by omega)]
      · rfl

/-! ### What is found -/

/-- An operand, and the tokens behind it. -/
abbrev Found := Operand × List Token

/-- What is found, without what is known of the tokens behind it. -/
def bare {P : List Token → Prop} (r : Except Diagnostic (Operand × { us : List Token // P us })) :
    Except Diagnostic Found :=
  r.map fun (x, us) => (x, us.1)

section Bare

variable {P Q : List Token → Prop} {r : Except Diagnostic (Operand × { us : List Token // P us })}

lemma bare_eq_ok (h : bare r = .ok (x, us)) : ∃ hus, r = .ok (x, ⟨us, hus⟩) := by
  obtain ⟨⟨y, vs, hvs⟩, hr, h⟩ := map_eq_ok h
  cases h
  exact ⟨hvs, hr⟩

lemma bare_bind {g : Operand × { us : List Token // P us } →
      Except Diagnostic (Operand × { us : List Token // Q us })}
    {h : Found → Except Diagnostic Found}
    (hgh : ∀ x us, r = .ok (x, us) → bare (g (x, us)) = h (x, us.1)) :
    bare (r >>= g) = bare r >>= h := by
  cases hr : r with
  | error d => rfl
  | ok a => exact hgh a.1 a.2 hr

lemma bare_bind_operand {c : Except Diagnostic Operand}
    {g : Operand → Except Diagnostic (Operand × { us : List Token // P us })}
    {h : Operand → Except Diagnostic Found} (hgh : ∀ x, bare (g x) = h x) :
    bare (c >>= g) = c >>= h := by
  cases c with
  | error d => rfl
  | ok x => exact hgh x

end Bare

/-- The operand that the evaluator finds at the start of the tokens `ts`, and what is
left of them. -/
def operand (stop : Nat) (ts : List Token) : Except Diagnostic Found := bare (unary stop ts)

/-- What the operators of at least the rank `floor` that follow the left operand `x`
come to. -/
def climb (stop floor : Nat) (x : Operand) (ts : List Token) : Except Diagnostic Found :=
  bare (binary stop floor x ts)

lemma length_lt_of_operand (h : operand stop ts = .ok (x, us)) : us.length < ts.length :=
  (bare_eq_ok h).1

lemma length_le_of_climb (h : climb stop floor x ts = .ok (y, us)) : us.length ≤ ts.length :=
  (bare_eq_ok h).1.1

/-! ### Steps of climbing -/

lemma climb_of_rests (h : Rests floor (ts.map Token.bare)) :
    climb stop floor x ts = .ok (x, ts) := by
  rw [climb, binary]
  split
  · rfl
  · rename_i hsome
    cases (operator?_of_rests h).symm.trans hsome

lemma tighter_of_rests (h : Rests (rank + 1) (ts.map Token.bare)) :
    bare (tighter stop rank y ts) = .ok (y, ts) := by
  rw [tighter]
  split
  · rfl
  · rename_i hsome
    cases (operator?_of_rests h).symm.trans hsome

/-- An operator is applied when the tighter ones have taken up its right operand. -/
lemma climb_eq_tighter (ht : t.kind = .operator op) (hop : floor ≤ op.rank) :
    climb stop floor x (t :: ts) = (do
      let (y, us) ← operand stop ts
      let (y, us) ← bare (tighter stop op.rank y us)
      let x ← op.apply t.span x y
      climb stop floor x us) := by
  rw [climb, binary]
  split
  · rename_i hnone
    cases (operator?_of_operator ht hop).symm.trans hnone
  · rename_i hsome
    cases (operator?_of_operator ht hop).symm.trans hsome
    refine bare_bind fun y us _ => bare_bind fun y vs _ => bare_bind_operand fun x => ?_
    rw [climb]
    cases binary stop floor x vs.1 <;> rfl

/-- A tighter operator goes on as far as it can, and then those that are left. -/
lemma tighter_of_operator (ht : t.kind = .operator op) (hop : rank + 1 ≤ op.rank) :
    bare (tighter stop rank y (t :: ts)) = (do
      let (y, us) ← climb stop op.rank y (t :: ts)
      bare (tighter stop rank y us)) := by
  rw [tighter]
  split
  · rename_i hnone
    cases (operator?_of_operator ht hop).symm.trans hnone
  · rename_i hsome
    cases (operator?_of_operator ht hop).symm.trans hsome
    refine bare_bind fun y us _ => ?_
    dsimp only
    cases tighter stop rank y us.1 <;> rfl

/-! ### Operators in turns -/

/-- **Operators may be taken up in turns**: first those of a greater rank, as far as
they go, and then the others. -/
theorem climb_bind_climb {floor' : Nat} (hle : floor ≤ floor') :
    (climb stop floor' x ts >>= fun (y, us) => climb stop floor y us) =
      climb stop floor x ts := by
  induction hn : ts.length using Nat.strong_induction_on generalizing x ts with
  | _ n ih =>
      by_cases hrests : Rests floor' (ts.map Token.bare)
      · rw [climb_of_rests hrests]
        rfl
      · obtain ⟨t, us, op, rfl, ht, hop⟩ := exists_operator_of_not_rests hrests
        -- both apply the operator in front, and go on with fewer tokens
        rw [climb_eq_tighter ht hop, climb_eq_tighter ht (hle.trans hop)]
        simp only [bind_assoc]
        refine bind_congr_ok fun ⟨y, vs⟩ hy => bind_congr_ok fun ⟨z, ws⟩ hz => ?_
        have hvs := length_lt_of_operand hy
        have hws : ws.length ≤ vs.length := (bare_eq_ok hz).1
        refine bind_congr_ok fun x' _ => ih ws.length ?_ rfl
        rw [← hn, List.length_cons]
        omega

/-- **Tighter operators are those that climbing at the next rank takes up**, however
many of them stand in a row and in whatever order. -/
theorem bare_tighter : bare (tighter stop rank y ts) = climb stop (rank + 1) y ts := by
  obtain ⟨n, hn⟩ : ∃ n, ts.length = n := ⟨_, rfl⟩
  induction n using Nat.strong_induction_on generalizing y ts with
  | _ n ih =>
      by_cases hrests : Rests (rank + 1) (ts.map Token.bare)
      · rw [climb_of_rests hrests, tighter_of_rests hrests]
      · obtain ⟨t, us, op, rfl, ht, hop⟩ := exists_operator_of_not_rests hrests
        -- climbing at the rank of the operator in front takes it up at least
        rw [tighter_of_operator ht hop, ← climb_bind_climb hop]
        refine bind_congr_ok fun ⟨z, vs⟩ hz => ih vs.length ?_ rfl
        rw [← hn]
        exact (bare_eq_ok hz).1.2 (by rw [operator?_of_operator ht le_rfl]; rfl)

/-- An operator is applied to the operand behind it, with which climbing at the next
rank has come as far as it can. -/
lemma climb_of_operator (ht : t.kind = .operator op) (hop : floor ≤ op.rank) :
    climb stop floor x (t :: ts) = (do
      let (y, us) ← operand stop ts
      let (y, us) ← climb stop (op.rank + 1) y us
      let x ← op.apply t.span x y
      climb stop floor x us) := by
  rw [climb_eq_tighter ht hop]
  simp only [bare_tighter]

/-! ### Steps of operands -/

/-- The token is the sign of an operation on the operand that the tokens behind it
begin with. A minus sign before digits is part of a literal. -/
inductive Signs : UnaryOp → Token → List Token → Prop where
  | not {t : Token} {ts : List Token} (ht : t.kind = .bang) : Signs .not t ts
  | neg {t : Token} {ts : List Token} (ht : t.kind = .operator .sub)
      (hts : ∀ u ∈ ts.head?, u.kind ≠ .integer) : Signs .neg t ts

/-- No operand begins with the token, for the reason `d`. -/
inductive Refuses (t : Token) : Diagnostic → Prop where
  | name (ht : t.kind = .name) :
      Refuses t ((LiteralFault.unknownName t.lexeme (suggestions t.lexeme)).at [t.span])
  | unexpected (ht : t.kind ∉ operandStart) (hname : t.kind ≠ .name) :
      Refuses t ((LiteralFault.unexpectedToken operandStart t.kind).at [t.span])

lemma operand_nil : operand stop [] = atEnd stop := by
  rw [operand, unary]
  rfl

/-- An operand without a sign in front is a primary expression. -/
lemma operand_eq_primary (hbang : t.kind ≠ .bang) (hminus : t.kind ≠ .operator .sub) :
    operand stop (t :: ts) = bare (primary stop t ts) := by
  rw [operand, unary.eq_def]
  dsimp only
  split
  · rename_i ht
    exact absurd ht hbang
  · rename_i ht
    exact absurd ht hminus
  · rfl

lemma operand_of_truth {b : Bool} (ht : t.kind = .truth b) :
    operand stop (t :: ts) = .ok (⟨.boolean b, t.span⟩, ts) := by
  rw [operand_eq_primary (by simp [ht]) (by simp [ht]), primary]
  simp only [ht]
  rfl

lemma operand_of_integer (ht : t.kind = .integer) :
    operand stop (t :: ts) = (integer false t.lexeme t.span).map (·, ts) := by
  rw [operand_eq_primary (by simp [ht]) (by simp [ht]), primary]
  simp only [ht]
  cases integer false t.lexeme t.span <;> rfl

lemma operand_of_negative (ht : t.kind = .operator .sub) (hu : u.kind = .integer) :
    operand stop (t :: u :: us) =
      (integer true u.lexeme (t.span.through u.span)).map (·, us) := by
  rw [operand, unary.eq_def]
  simp only [ht, integer?, hu, if_true]
  cases integer true u.lexeme (t.span.through u.span) <;> rfl

/-- An expression is an operand with the operators that follow it. -/
lemma bare_expression :
    bare (expression stop ts) = operand stop ts >>= fun (x, us) => climb stop 0 x us := by
  rw [expression]
  refine bare_bind fun x us _ => ?_
  dsimp only [climb]
  cases binary stop 0 x us.1 <;> rfl

/-- An operand in parentheses is an expression, up to the `)` that closes it. -/
lemma operand_of_opening (ht : t.kind = .opening) :
    operand stop (t :: ts) = (do
      let (x, us) ← operand stop ts
      let (x, us) ← climb stop 0 x us
      bare (close stop t.span x us)) := by
  rw [operand_eq_primary (by simp [ht]) (by simp [ht]), primary]
  simp only [ht]
  trans bare (expression stop ts) >>= fun (x, us) => bare (close stop t.span x us)
  · refine bare_bind fun x us _ => ?_
    dsimp only
    cases close stop t.span x us.1 <;> rfl
  · rw [bare_expression, bind_assoc]

/-- An operation is applied to the operand behind its sign. -/
lemma operand_of_sign {op : UnaryOp} (h : Signs op t ts) :
    operand stop (t :: ts) = (do
      let (x, us) ← operand stop ts
      let x ← op.apply t.span x
      .ok (x, us)) := by
  have happlied : operand stop (t :: ts) = bare (applied op t (unary stop ts)) := by
    rw [operand, unary.eq_def]
    cases h with
    | not ht => simp only [ht]
    | neg ht hts =>
        have hnone : integer? ts = none := by
          cases ts with
          | nil => rfl
          | cons u us => rw [integer?, if_neg (hts u rfl)]
        simp only [ht, hnone]
  rw [happlied]
  exact bare_bind fun x us _ => bare_bind_operand fun x => rfl

lemma ne_of_not_mem_operandStart {kind : TokenKind} (h : kind ∉ operandStart) :
    (∀ b, kind ≠ .truth b) ∧ kind ≠ .integer ∧ kind ≠ .opening ∧ kind ≠ .bang ∧
      kind ≠ .operator .sub := by
  simp only [operandStart, List.mem_cons, List.not_mem_nil, or_false, not_or] at h
  obtain ⟨htrue, hfalse, hrest⟩ := h
  exact ⟨Bool.rec hfalse htrue, hrest⟩

lemma operand_of_refuses {d : Diagnostic} (h : Refuses t d) :
    operand stop (t :: ts) = .error d := by
  cases h with
  | name ht =>
      rw [operand_eq_primary (by simp [ht]) (by simp [ht]), primary]
      simp only [ht]
      rfl
  | unexpected ht hname =>
      obtain ⟨htruth, hinteger, hopening, hbang, hminus⟩ := ne_of_not_mem_operandStart ht
      rw [operand_eq_primary hbang hminus, primary]
      split
      · exact absurd ‹_› (htruth _)
      · exact absurd ‹_› hinteger
      · exact absurd ‹_› hopening
      · exact absurd ‹_› hname
      · rfl

/-! ### All that is found -/

/-- The ways in which the tokens at the start of an operand can begin. -/
inductive Begins : List Token → Prop where
  | ended : Begins []
  | truth {t : Token} {ts : List Token} {b : Bool} (ht : t.kind = .truth b) : Begins (t :: ts)
  | integer {t : Token} {ts : List Token} (ht : t.kind = .integer) : Begins (t :: ts)
  | negative {t u : Token} {us : List Token} (ht : t.kind = .operator .sub)
      (hu : u.kind = .integer) : Begins (t :: u :: us)
  | parens {t : Token} {ts : List Token} (ht : t.kind = .opening) : Begins (t :: ts)
  | sign {op : UnaryOp} {t : Token} {ts : List Token} (h : Signs op t ts) : Begins (t :: ts)
  | refused {t : Token} {ts : List Token} {d : Diagnostic} (h : Refuses t d) : Begins (t :: ts)

/-- There is no other way. -/
lemma begins (ts : List Token) : Begins ts := by
  cases ts with
  | nil => exact .ended
  | cons t ts =>
      cases ht : t.kind with
      | truth b => exact .truth ht
      | integer => exact .integer ht
      | opening => exact .parens ht
      | bang => exact .sign (.not ht)
      | name => exact .refused (.name ht)
      | closing | symbol | blank =>
          exact .refused (.unexpected (by simp [ht, operandStart]) (by simp [ht]))
      | operator op =>
          by_cases hop : op = .sub
          · subst hop
            by_cases hts : ∀ u ∈ ts.head?, u.kind ≠ .integer
            · exact .sign (.neg ht hts)
            · cases ts with
              | nil => exact absurd (fun u hu => nomatch hu) hts
              | cons u us => exact .negative ht (by simpa using hts)
          · exact .refused (.unexpected (by simp [ht, operandStart, hop]) (by simp [ht]))

/-- **What is to be known of all that the evaluator finds** is shown by one case for
each way in which tokens begin: `P` of operands, and `Q` of what the operators behind
an operand come to. Of what is found on the way it may be used. -/
theorem reading_induction {P : List Token → Except Diagnostic Found → Prop}
    {Q : Nat → Operand → List Token → Except Diagnostic Found → Prop}
    (ended : P [] (atEnd stop))
    (truth : ∀ {t ts b}, t.kind = .truth b → P (t :: ts) (.ok (⟨.boolean b, t.span⟩, ts)))
    (digits : ∀ {t ts}, t.kind = .integer →
      P (t :: ts) ((integer false t.lexeme t.span).map (·, ts)))
    (negative : ∀ {t u us}, t.kind = .operator .sub → u.kind = .integer →
      P (t :: u :: us) ((integer true u.lexeme (t.span.through u.span)).map (·, us)))
    (parens : ∀ {t ts}, t.kind = .opening → P ts (operand stop ts) →
      (∀ x us, operand stop ts = .ok (x, us) → Q 0 x us (climb stop 0 x us)) →
      P (t :: ts) (do
        let (x, us) ← operand stop ts
        let (x, us) ← climb stop 0 x us
        bare (close stop t.span x us)))
    (sign : ∀ {op t ts}, Signs op t ts → P ts (operand stop ts) →
      P (t :: ts) (do
        let (x, us) ← operand stop ts
        let x ← op.apply t.span x
        .ok (x, us)))
    (refused : ∀ {t ts d}, Refuses t d → P (t :: ts) (.error d))
    (rests : ∀ {floor x ts}, Rests floor (ts.map Token.bare) → Q floor x ts (.ok (x, ts)))
    (operator : ∀ {floor x t ts op}, t.kind = .operator op → floor ≤ op.rank →
      P ts (operand stop ts) →
      (∀ y us, operand stop ts = .ok (y, us) →
        Q (op.rank + 1) y us (climb stop (op.rank + 1) y us)) →
      (∀ y us z ws x, operand stop ts = .ok (y, us) →
        climb stop (op.rank + 1) y us = .ok (z, ws) → Q floor x ws (climb stop floor x ws)) →
      Q floor x (t :: ts) (do
        let (y, us) ← operand stop ts
        let (z, ws) ← climb stop (op.rank + 1) y us
        let x ← op.apply t.span x z
        climb stop floor x ws)) :
    (∀ ts, P ts (operand stop ts)) ∧ ∀ floor x ts, Q floor x ts (climb stop floor x ts) := by
  suffices h : ∀ ts, P ts (operand stop ts) ∧ ∀ floor x, Q floor x ts (climb stop floor x ts) from
    ⟨fun ts => (h ts).1, fun floor x ts => (h ts).2 floor x⟩
  intro ts
  induction hn : ts.length using Nat.strong_induction_on generalizing ts with
  | _ n ih =>
      have hshorter {us : List Token} (hus : us.length < ts.length) :=
        ih us.length (hn ▸ hus) us rfl
      constructor
      · cases begins ts with
        | ended => exact operand_nil ▸ ended
        | truth ht => exact operand_of_truth ht ▸ truth ht
        | integer ht => exact operand_of_integer ht ▸ digits ht
        | negative ht hu => exact operand_of_negative ht hu ▸ negative ht hu
        | parens ht =>
            rw [operand_of_opening ht]
            refine parens ht (hshorter (Nat.lt_succ_self _)).1 fun x us hx => ?_
            exact (hshorter ((length_lt_of_operand hx).trans (Nat.lt_succ_self _))).2 0 x
        | sign h => exact operand_of_sign h ▸ sign h (hshorter (Nat.lt_succ_self _)).1
        | refused h => exact operand_of_refuses h ▸ refused h
      · intro floor x
        by_cases hrests : Rests floor (ts.map Token.bare)
        · exact climb_of_rests hrests ▸ rests hrests
        · obtain ⟨t, us, op, rfl, ht, hop⟩ := exists_operator_of_not_rests hrests
          have hlt : us.length < (t :: us).length := Nat.lt_succ_self _
          rw [climb_of_operator ht hop]
          refine operator ht hop (hshorter hlt).1 (fun y vs hy => ?_) fun y vs z ws x hy hz => ?_
          · exact (hshorter ((length_lt_of_operand hy).trans hlt)).2 _ y
          · have hws := (length_le_of_climb hz).trans_lt (length_lt_of_operand hy)
            exact (hshorter (hws.trans hlt)).2 floor x

/-! ### Texts -/

/-- The value of a text that ends at byte `stop`, if nothing is left of it. -/
def complete (stop : Nat) : Found → Except Diagnostic Value
  | (x, []) => .ok x.value
  | (_, t :: _) => .error (LiteralFault.trailingTokens.at [⟨t.span.start, stop⟩])

end Evaluation

open Evaluation in
/-- A text is evaluated from its first operand on, and to the end. -/
lemma evaluate_eq (text : String) :
    evaluate text =
      operand text.utf8ByteSize (tokens text) >>=
        (fun (x, us) => climb text.utf8ByteSize 0 x us) >>= complete text.utf8ByteSize := by
  rw [← bare_expression, evaluate]
  cases expression text.utf8ByteSize (tokens text) with
  | error d => rfl
  | ok found =>
      obtain ⟨x, us, hus⟩ := found
      cases us <;> rfl

end Innermost
