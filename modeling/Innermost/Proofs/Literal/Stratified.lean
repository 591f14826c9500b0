import Innermost.Proofs.Literal.Substitution

/-!
The evaluator follows a grammar with one rule for each level of operators.

* `Stratified.evaluate` is the evaluator that this grammar describes. Each rule is a
  function: `binary` for the levels, which `fold` takes up from left to right,
  `unary` and `primary`. Every one of them takes up at least one token, so there is
  no limit on their depth.
* `Agrees`: on given tokens, each rule takes up what the evaluator takes up. One
  induction on the number of tokens shows it of all rules (`agrees`); within it the
  levels are joined from the tightest one on, since what climbing at the next rank
  leaves is what the operators of a level may take up (`bare_fold`). That the loop of
  tighter operators climbs at the next rank is `Evaluation.bare_tighter`.
* `evaluate_eq_stratified`: both evaluators give every text the same value, or tell
  of the same fault at the same regions.
-/

namespace Innermost

/-! ### The evaluator of the grammar -/

namespace Stratified

open Evaluation (Rest Result atEnd integer suggestions operandStart)

/-- The levels of operators, the loosest first. -/
def strata : List (List BinaryOp) :=
  [[.or], [.and], [.eq, .ne], [.lt, .le, .gt, .ge], [.add, .sub], [.mul, .div, .mod]]

/-- Applies the unary operator `t` to the operand behind it. -/
def applied (op : UnaryOp) (t : Token) {ts : List Token} (operand : Result ts) :
    Result (t :: ts) := do
  let (x, us) ← operand
  let x ← op.apply t.span x
  .ok (x, us.behind t)

mutual

/-- An expression with operators of the given levels: one of the tighter levels, and
then the operators of the loosest level with their right operands. -/
def binary (stop : Nat) : (levels : List (List BinaryOp)) → (ts : List Token) → Result ts
  | [], ts => unary stop ts
  | ops :: tighter, ts => do
      let (x, us) ← binary stop tighter ts
      fold stop ops tighter x us
termination_by levels ts => (ts.length, levels.length + 2)

/-- Takes up the operators `ops` that follow the left operand `x`. Each is applied as
soon as its right operand is complete, and gives the left operand of the next. -/
def fold (stop : Nat) (ops : List BinaryOp) (tighter : List (List BinaryOp)) {ts : List Token}
    (x : Operand) : Rest ts → Result ts
  | ⟨[], h⟩ => .ok (x, ⟨[], h⟩)
  | ⟨t :: us, h⟩ =>
      match t.kind with
      | .operator op =>
          if op ∈ ops then do
            let (y, vs) ← binary stop tighter us
            let x ← op.apply t.span x y
            fold stop ops tighter x ⟨vs.1, vs.2.trans ((Nat.lt_succ_self _).trans h)⟩
          else .ok (x, ⟨t :: us, h⟩)
      | _ => .ok (x, ⟨t :: us, h⟩)
termination_by us => (us.1.length, 0)

/-- A unary operator before an operand, a negative literal, or a primary
expression. -/
def unary (stop : Nat) : (ts : List Token) → Result ts
  | [] => atEnd stop
  | t :: ts =>
      match t.kind with
      | .bang => applied .not t (unary stop ts)
      | .operator .sub =>
          match ts with
          | [] => applied .neg t (unary stop [])
          | u :: us =>
              if u.kind = .integer then do
                let x ← integer true u.lexeme (t.span.through u.span)
                .ok (x, ⟨us, Nat.lt_add_of_pos_right Nat.zero_lt_two⟩)
              else applied .neg t (unary stop (u :: us))
      | _ => primary stop t ts
termination_by ts => (ts.length, 1)

/-- A literal, or an expression in parentheses. -/
def primary (stop : Nat) (t : Token) (ts : List Token) : Result (t :: ts) :=
  match t.kind with
  | .truth b => .ok (⟨.boolean b, t.span⟩, ⟨ts, Nat.lt_succ_self _⟩)
  | .integer => do
      let x ← integer false t.lexeme t.span
      .ok (x, ⟨ts, Nat.lt_succ_self _⟩)
  | .opening => do
      let (x, us) ← binary stop strata ts
      match us with
      | ⟨[], _⟩ => atEnd stop
      | ⟨u :: vs, h⟩ =>
          if u.kind = .closing then
            .ok (⟨x.value, t.span.through u.span⟩,
              ⟨vs, (Nat.lt_succ_self _).trans (h.trans (Nat.lt_succ_self _))⟩)
          else .error ((LiteralFault.unexpectedToken [.closing] u.kind).at [u.span])
  | .name => .error ((LiteralFault.unknownName t.lexeme (suggestions t.lexeme)).at [t.span])
  | found => .error ((LiteralFault.unexpectedToken operandStart found).at [t.span])
termination_by (ts.length + 1, 0)

end

/-- The value of a text by the grammar: its tokens are an expression, and none is
left. -/
def evaluate (text : String) : Except Diagnostic Value := do
  let stop := text.utf8ByteSize
  match ← binary stop strata (tokens text) with
  | (x, ⟨[], _⟩) => .ok x.value
  | (_, ⟨t :: _, _⟩) => .error (LiteralFault.trailingTokens.at [⟨t.span.start, stop⟩])

/-! ### Agreement -/

open Evaluation

variable {stop k : Nat} {t : Token} {ts us : List Token} {x : Operand}

lemma bare_applied (op : UnaryOp) (t : Token) (r : Result ts) :
    bare (applied op t r) = (do
      let (x, us) ← bare r
      let x ← op.apply t.span x
      .ok (x, us)) :=
  bare_bind fun _ _ _ => bare_bind_operand fun _ => rfl

/-- A level holds the operators of its rank. -/
lemma mem_strata_iff (hk : k < strata.length) (op : BinaryOp) :
    op ∈ strata[k] ↔ op.rank = k := by
  have h : ∀ k : Fin strata.length, op ∈ strata.get k ↔ op.rank = k := by
    cases op <;> decide
  exact h ⟨k, hk⟩

lemma rank_lt_length_strata (op : BinaryOp) : op.rank < strata.length := by
  cases op <;> decide

/-! #### Steps of the grammar -/

lemma fold_of_rests (hk : k < strata.length) {us : Rest ts}
    (h : Rests k (us.1.map Token.bare)) (tighter : List (List BinaryOp)) :
    fold stop strata[k] tighter x us = .ok (x, us) := by
  obtain ⟨_ | ⟨t, vs⟩, hus⟩ := us
  · rw [fold]
  · rw [fold]
    split
    · rename_i op ht
      have hlt : op.rank < k := h t.bare (by simp) op ht
      rw [if_neg fun hmem => hlt.ne ((mem_strata_iff hk op).mp hmem)]
    · rfl

lemma fold_of_operator {op : BinaryOp} {ops : List BinaryOp} (ht : t.kind = .operator op)
    (hop : op ∈ ops) (hus : (t :: us).length < ts.length) (tighter : List (List BinaryOp)) :
    fold stop ops tighter x ⟨t :: us, hus⟩ = (do
      let (y, vs) ← binary stop tighter us
      let x ← op.apply t.span x y
      fold stop ops tighter x ⟨vs.1, vs.2.trans ((Nat.lt_succ_self _).trans hus)⟩) := by
  rw [fold]
  simp only [ht, hop, if_true]

lemma unary_of_primary (hbang : t.kind ≠ .bang) (hminus : t.kind ≠ .operator .sub) :
    unary stop (t :: ts) = primary stop t ts := by
  unfold unary
  split
  · rename_i ht
    exact absurd ht hbang
  · rename_i ht
    exact absurd ht hminus
  · rfl

lemma unary_of_sign {op : UnaryOp} (h : Signs op t ts) :
    unary stop (t :: ts) = applied op t (unary stop ts) := by
  rw [unary.eq_def]
  cases h with
  | not ht => simp only [ht]
  | neg ht hts =>
      simp only [ht]
      cases ts with
      | nil => rfl
      | cons u us => exact if_neg (hts u rfl)

lemma unary_of_refuses {d : Diagnostic} (h : Refuses t d) : unary stop (t :: ts) = .error d := by
  cases h with
  | name ht =>
      rw [unary_of_primary (by simp [ht]) (by simp [ht]), primary]
      simp only [ht]
  | unexpected ht hname =>
      obtain ⟨htruth, hinteger, hopening, hbang, hminus⟩ := ne_of_not_mem_operandStart ht
      rw [unary_of_primary hbang hminus, primary]
      split
      · exact absurd ‹_› (htruth _)
      · exact absurd ‹_› hinteger
      · exact absurd ‹_› hopening
      · exact absurd ‹_› hname
      · rfl

lemma bare_primary_of_opening (ht : t.kind = .opening) :
    bare (primary stop t ts) = (do
      let (x, us) ← bare (binary stop strata ts)
      bare (close stop t.span x us)) := by
  simp only [primary, ht]
  refine bare_bind fun x us _ => ?_
  obtain ⟨_ | ⟨u, vs⟩, hus⟩ := us
  · rfl
  · simp only [close]
    split_ifs <;> rfl

/-! #### One induction for all rules -/

/-- On the tokens `ts`, an operand is what the grammar takes up without binary
operators, and climbing goes on to what it takes up with the levels from the rank `k`
on. -/
structure Agrees (stop : Nat) (ts : List Token) : Prop where
  unary : bare (Stratified.unary stop ts) = operand stop ts
  binary : ∀ {k : Nat}, k ≤ strata.length →
    bare (Stratified.binary stop (strata.drop k) ts) =
      operand stop ts >>= fun (x, us) => climb stop k x us

/-- Behind an operand with its operators, the operators of these ranks are taken
up. -/
lemma rests_of_operand_bind_climb
    (h : (operand stop ts >>= fun (x, us) => climb stop k x us) = .ok (x, us)) :
    Rests k (us.map Token.bare) := by
  obtain ⟨⟨y, vs⟩, -, hclimb⟩ := bind_eq_ok h
  exact (yields_of_climb hclimb).rests

section Rules

variable (ih : ∀ us : List Token, us.length < ts.length → Agrees stop us)
include ih

/-- When the tighter operators are taken up, climbing at the rank of a level takes
up the operators of this level. -/
lemma bare_fold (hk : k < strata.length) {us : Rest ts}
    (hrests : Rests (k + 1) (us.1.map Token.bare)) :
    bare (fold stop strata[k] (strata.drop (k + 1)) x us) = climb stop k x us.1 := by
  induction hn : us.1.length using Nat.strong_induction_on generalizing x us with
  | _ n hfold =>
      by_cases h : Rests k (us.1.map Token.bare)
      · rw [climb_of_rests h, fold_of_rests hk h]
        rfl
      · obtain ⟨us, hus⟩ := us
        obtain ⟨t, vs, op, rfl, ht, hop⟩ := exists_operator_of_not_rests h
        have hlt : op.rank < k + 1 := hrests t.bare (by simp) op ht
        obtain rfl : op.rank = k := Nat.le_antisymm (Nat.le_of_lt_succ hlt) hop
        have hbinary := (ih vs ((Nat.lt_succ_self _).trans hus)).binary (k := op.rank + 1) hk
        rw [climb_of_operator ht hop, fold_of_operator ht ((mem_strata_iff hk op).mpr rfl)]
        trans bare (binary stop (strata.drop (op.rank + 1)) vs) >>= fun (y, ws) => do
          let x ← op.apply t.span x y
          climb stop op.rank x ws
        · refine bare_bind fun y ws hy => bare_bind_operand fun x' => ?_
          have hws : Rests (op.rank + 1) (ws.1.map Token.bare) := by
            rw [hy] at hbinary
            exact rests_of_operand_bind_climb hbinary.symm
          exact hfold ws.1.length (hn ▸ ws.2.trans (Nat.lt_succ_self _)) hws rfl
        · rw [hbinary, bind_assoc]

/-- An operand is a unary expression. -/
lemma bare_unary : bare (unary stop ts) = operand stop ts := by
  cases begins ts with
  | ended =>
      rw [operand_nil, unary]
      rfl
  | truth ht =>
      rw [operand_of_truth ht, unary_of_primary (by simp [ht]) (by simp [ht])]
      simp only [primary, ht]
      rfl
  | @integer t _ ht =>
      rw [operand_of_integer ht, unary_of_primary (by simp [ht]) (by simp [ht])]
      simp only [primary, ht]
      cases integer false t.lexeme t.span <;> rfl
  | @negative t u _ ht hu =>
      rw [operand_of_negative ht hu, unary.eq_def]
      simp only [ht, hu, if_true]
      cases integer true u.lexeme (t.span.through u.span) <;> rfl
  | @parens t us ht =>
      have hbinary := (ih us (Nat.lt_succ_self _)).binary (k := 0) (Nat.zero_le _)
      rw [List.drop_zero] at hbinary
      rw [operand_of_opening ht, unary_of_primary (by simp [ht]) (by simp [ht]),
        bare_primary_of_opening ht, hbinary, bind_assoc]
  | @sign _ _ us h =>
      rw [operand_of_sign h, ← (ih us (Nat.lt_succ_self _)).unary, unary_of_sign h, bare_applied]
  | refused h =>
      rw [operand_of_refuses h, unary_of_refuses h]
      rfl

/-- An operand with the operators of at least the rank `k` is an expression of the
levels from there on. -/
lemma bare_binary (hk : k ≤ strata.length) :
    bare (binary stop (strata.drop k) ts) =
      operand stop ts >>= fun (x, us) => climb stop k x us := by
  -- from the tightest level to the looser ones
  induction hk using Nat.decreasingInduction with
  | self =>
      have hrests (us : List Token) : Rests strata.length (us.map Token.bare) :=
        fun _ _ op _ => rank_lt_length_strata op
      rw [List.drop_length, binary, bare_unary ih]
      simp only [climb_of_rests (hrests _)]
      exact (bind_pure _).symm
  | of_succ k hk hbinary =>
      rw [List.drop_eq_getElem_cons hk, binary]
      trans bare (binary stop (strata.drop (k + 1)) ts) >>= fun (x, us) => climb stop k x us
      · refine bare_bind fun x us hx => bare_fold ih hk ?_
        rw [hx] at hbinary
        exact rests_of_operand_bind_climb hbinary.symm
      · rw [hbinary, bind_assoc]
        exact bind_congr_ok fun _ _ => climb_bind_climb (Nat.le_succ k)

end Rules

/-- On all tokens, both evaluators agree. -/
theorem agrees (stop : Nat) (ts : List Token) : Agrees stop ts := by
  induction hn : ts.length using Nat.strong_induction_on generalizing ts with
  | _ n ih =>
      have hshorter : ∀ us : List Token, us.length < ts.length → Agrees stop us :=
        fun us hus => ih us.length (hn ▸ hus) us rfl
      exact ⟨bare_unary hshorter, bare_binary hshorter⟩

end Stratified

/-- **Climbing over the ranks of operators is one fold for each level**: on every
text, the evaluator comes to the value that the grammar gives, or to the fault that
the grammar meets first, at the same regions. -/
theorem evaluate_eq_stratified (text : String) : evaluate text = Stratified.evaluate text := by
  have hexpression := (Stratified.agrees text.utf8ByteSize (tokens text)).binary (Nat.zero_le _)
  rw [evaluate_eq, ← hexpression, Stratified.evaluate, List.drop_zero]
  rcases Stratified.binary text.utf8ByteSize Stratified.strata (tokens text) with
    d | ⟨x, _ | ⟨t, us⟩, h⟩ <;> rfl

end Innermost
