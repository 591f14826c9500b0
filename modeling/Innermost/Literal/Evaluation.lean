import Innermost.Literal.Operation
import Innermost.Text.Basic

/-!
Evaluation of texts of literals and operators, such as `1 + 2 * 3` or
`(true && !false)`.

Operators are applied as soon as both operands are known, by precedence
climbing: after an operand, the operators of at least a given rank are applied
from left to right (`binary`), each to a right operand that has first taken up
the operators of a greater rank (`tighter`). So among operators of one rank the
left one comes first, and what is wrong in a text is told of the first place at
which evaluation gets stuck.

Every function says of the tokens that it leaves how many there are at most, so
that no bound on the depth of an expression is needed.
-/

namespace Innermost

namespace Evaluation

/-- The literals that a name may be a misspelling of. -/
def words : List String := ["true", "false"]

/-- The literals that differ from a name by at most two edits. -/
def suggestions (name : String) : List String :=
  words.filter fun word => editDistance word name < 3

/-- The kinds of tokens that an operand may begin with. -/
def operandStart : List TokenKind :=
  [.truth true, .truth false, .integer, .opening, .bang, .operator .sub]

/-! ### Tokens that are left -/

/-- What is left of the tokens `ts` when at least one of them is taken up. -/
abbrev Rest (ts : List Token) := { us : List Token // us.length < ts.length }

/-- What is left behind a token is left of the tokens that begin with it. -/
def Rest.behind (t : Token) {ts : List Token} (us : Rest ts) : Rest (t :: ts) :=
  ⟨us.1, Nat.lt_succ_of_lt us.2⟩

/-- What is left of what is left. -/
def Rest.within {ts : List Token} (us : Rest ts) (vs : Rest us.1) : Rest ts :=
  ⟨vs.1, Nat.lt_trans vs.2 us.2⟩

/-- The integer in front, if one stands there, and the tokens behind it. -/
def integer? : (ts : List Token) → Option (Token × Rest ts)
  | [] => none
  | t :: ts => if t.kind = .integer then some (t, ⟨ts, Nat.lt_succ_self _⟩) else none

/-- The operator in front, if one of at least the rank `floor` stands there; its
region, and the tokens behind it. -/
def operator? (floor : Nat) : (ts : List Token) → Option (BinaryOp × Span × Rest ts)
  | [] => none
  | t :: ts =>
      match t.kind with
      | .operator op =>
          if floor ≤ op.rank then some (op, t.span, ⟨ts, Nat.lt_succ_self _⟩) else none
      | _ => none

/-- What may be left of the tokens `ts` when operators of at least the rank
`floor` are taken up. If one stands in front, it is. -/
abbrev Left (floor : Nat) (ts : List Token) :=
  { us : List Token // us.length ≤ ts.length ∧
    ((operator? floor ts).isSome → us.length < ts.length) }

/-- An operator that is found stands in front. -/
theorem exists_cons_of_operator? {floor : Nat} {ts : List Token} {op : BinaryOp}
    {behind : Span × Rest ts} (h : operator? floor ts = some (op, behind)) :
    ∃ t, ts = t :: behind.2.1 ∧ t.kind = .operator op ∧ floor ≤ op.rank := by
  cases ts with
  | nil => cases h
  | cons t ts =>
      rw [operator?] at h
      split at h
      · rename_i op ht
        split at h
        · rename_i hop
          cases h
          exact ⟨t, rfl, ht, hop⟩
        · cases h
      · cases h

/-- It is one of at least its own rank. -/
theorem isSome_operator?_rank {floor : Nat} {ts : List Token} {op : BinaryOp}
    {behind : Span × Rest ts} (h : operator? floor ts = some (op, behind)) :
    (operator? op.rank ts).isSome := by
  obtain ⟨t, hts, ht, -⟩ := exists_cons_of_operator? h
  rw [hts, operator?]
  simp [ht]

/-! ### Operands -/

/-- An operand at the start of the tokens `ts`, and what is left of them. -/
abbrev Result (ts : List Token) := Except Diagnostic (Operand × Rest ts)

/-- The integer literal of some digits, after a minus sign if `negative`, that
fills the region `span`. -/
def integer (negative : Bool) (digits : String) (span : Span) :
    Except Diagnostic Operand :=
  let n : Int := Nat.ofDigitChars 10 digits.toList 0
  match Number.ofInt? (if negative then -n else n) with
  | some n => .ok ⟨.integer n, span⟩
  | none => .error (LiteralFault.integerTooLarge.at [span])

/-- A text that ends at byte `stop`, where an operand or `)` has to stand. -/
def atEnd {α : Type} (stop : Nat) : Except Diagnostic α :=
  .error (LiteralFault.unexpectedEnd.at [Span.empty stop])

/-- Applies the operator `t` to the operand behind it. -/
def applied (op : UnaryOp) (t : Token) {ts : List Token} (operand : Result ts) :
    Result (t :: ts) := do
  let (x, us) ← operand
  let x ← op.apply t.span x
  .ok (x, us.behind t)

/-- Ends an operand in parentheses, the first of which fills the region
`opening`: the next token has to be the `)` that closes it. -/
def close (stop : Nat) (opening : Span) (x : Operand) : (ts : List Token) → Result ts
  | [] => atEnd stop
  | t :: ts =>
      if t.kind = .closing then
        .ok (⟨x.value, opening.through t.span⟩, ⟨ts, Nat.lt_succ_self _⟩)
      else .error ((LiteralFault.unexpectedToken [.closing] t.kind).at [t.span])

/-! ### Expressions -/

mutual

/-- An expression: an operand, and the operators that follow it. -/
def expression (stop : Nat) (ts : List Token) : Result ts := do
  let (x, us) ← unary stop ts
  let (x, vs) ← binary stop 0 x us.1
  .ok (x, ⟨vs.1, Nat.lt_of_le_of_lt vs.2.1 us.2⟩)
termination_by 3 * ts.length + 2

/-- Applies the operators of at least the rank `floor` that follow the left
operand `x`. -/
def binary (stop floor : Nat) (x : Operand) (ts : List Token) :
    Except Diagnostic (Operand × Left floor ts) :=
  match h : operator? floor ts with
  | none => .ok (x, ⟨ts, Nat.le_refl _, by simp [h]⟩)
  | some (op, place, us) => do
      have := us.2
      let (y, vs) ← unary stop us.1
      have := vs.2
      let (y, ws) ← tighter stop op.rank y vs.1
      have := ws.2
      let x ← op.apply place x y
      let (x, rest) ← binary stop floor x ws.1
      have hlt : rest.1.length < ts.length := by
        have := rest.2.1
        omega
      .ok (x, ⟨rest.1, Nat.le_of_lt hlt, fun _ => hlt⟩)
termination_by 3 * ts.length

/-- Lets the operators of a greater rank than `rank` that follow the operand `y`
take it as their left one. -/
def tighter (stop rank : Nat) (y : Operand) (ts : List Token) :
    Except Diagnostic (Operand × { us : List Token // us.length ≤ ts.length }) :=
  match h : operator? (rank + 1) ts with
  | none => .ok (y, ⟨ts, Nat.le_refl _⟩)
  | some (next, _) => do
      let (y, us) ← binary stop next.rank y ts
      have := us.2.2 (isSome_operator?_rank h)
      let (y, vs) ← tighter stop rank y us.1
      .ok (y, ⟨vs.1, Nat.le_trans vs.2 us.2.1⟩)
termination_by 3 * ts.length + 1

/-- An operator before an operand, a negative literal, or a primary expression.
A minus sign whose next token is an integer is part of that literal, so that the
least integer can be written. -/
def unary (stop : Nat) : (ts : List Token) → Result ts
  | [] => atEnd stop
  | t :: ts =>
      match t.kind with
      | .bang => applied .not t (unary stop ts)
      | .operator .sub =>
          match integer? ts with
          | some (u, us) => do
              let x ← integer true u.lexeme (t.span.through u.span)
              .ok (x, us.behind t)
          | none => applied .neg t (unary stop ts)
      | _ => primary stop t ts
termination_by ts => 3 * ts.length + 1

/-- A literal, or an expression in parentheses, that begins with the token
`t`. -/
def primary (stop : Nat) (t : Token) (ts : List Token) : Result (t :: ts) :=
  match t.kind with
  | .truth b => .ok (⟨.boolean b, t.span⟩, ⟨ts, Nat.lt_succ_self _⟩)
  | .integer => do
      let x ← integer false t.lexeme t.span
      .ok (x, ⟨ts, Nat.lt_succ_self _⟩)
  | .opening => do
      let (x, us) ← expression stop ts
      let (x, vs) ← close stop t.span x us.1
      .ok (x, (us.within vs).behind t)
  | .name => .error ((LiteralFault.unknownName t.lexeme (suggestions t.lexeme)).at [t.span])
  | found => .error ((LiteralFault.unexpectedToken operandStart found).at [t.span])
termination_by 3 * ts.length + 3

end

end Evaluation

/-- The value of a text of literals and operators. -/
def evaluate (text : String) : Except Diagnostic Value := do
  let stop := text.utf8ByteSize
  match ← Evaluation.expression stop (tokens text) with
  | (x, ⟨[], _⟩) => .ok x.value
  | (_, ⟨t :: _, _⟩) => .error (LiteralFault.trailingTokens.at [⟨t.span.start, stop⟩])

end Innermost
