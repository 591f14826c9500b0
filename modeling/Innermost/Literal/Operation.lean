import Innermost.Diagnostic

/-!
The operations of the literal language.

* `UnaryOp.eval` and `BinaryOp.eval` operate on values. Both operands are
  always known; there is no operation that leaves one out.
* `UnaryOp.apply` and `BinaryOp.apply` operate on operands, which are values
  together with the regions of the text that denote them, and point a fault to
  the regions that it concerns.
-/

namespace Innermost

/-! ### On values -/

/-- The integer that an operation results in, which fails if it does not
fit. -/
def fitting : Option Number → Except LiteralFault Value
  | some n => .ok (.integer n)
  | none => .error .overflow

/-- The result of a unary operator. -/
def UnaryOp.eval (op : UnaryOp) (x : Value) : Except LiteralFault Value :=
  match op, x with
  | .not, .boolean b => .ok (.boolean !b)
  | .neg, .integer n => fitting n.neg?
  | _, _ => .error (.invalidOperand op x.type)

/-- The result of a binary operator. -/
def BinaryOp.eval (op : BinaryOp) (x y : Value) : Except LiteralFault Value :=
  match op, x, y with
  | .or, .boolean a, .boolean b => .ok (.boolean (a || b))
  | .and, .boolean a, .boolean b => .ok (.boolean (a && b))
  | .eq, .boolean a, .boolean b => .ok (.boolean (a = b))
  | .eq, .integer a, .integer b => .ok (.boolean (a = b))
  | .ne, .boolean a, .boolean b => .ok (.boolean (a ≠ b))
  | .ne, .integer a, .integer b => .ok (.boolean (a ≠ b))
  | .lt, .integer a, .integer b => .ok (.boolean (a.val < b.val))
  | .le, .integer a, .integer b => .ok (.boolean (a.val ≤ b.val))
  | .gt, .integer a, .integer b => .ok (.boolean (b.val < a.val))
  | .ge, .integer a, .integer b => .ok (.boolean (b.val ≤ a.val))
  | .add, .integer a, .integer b => fitting (a.add? b)
  | .sub, .integer a, .integer b => fitting (a.sub? b)
  | .mul, .integer a, .integer b => fitting (a.mul? b)
  | .div, .integer a, .integer b =>
      if b.val = 0 then .error .divisionByZero else fitting (a.div? b)
  | .mod, .integer a, .integer b =>
      if b.val = 0 then .error .divisionByZero else fitting (a.mod? b)
  | _, _, _ => .error (.invalidOperands op x.type y.type)

/-! ### On operands -/

/-- A value and the region of the text that denotes it. -/
structure Operand where
  value : Value
  span : Span
  deriving DecidableEq

/-- A fault of the literal language at some regions. -/
def LiteralFault.at (fault : LiteralFault) (spans : List Span) : Diagnostic :=
  ⟨.literal fault, spans⟩

/-- The operand that an operation results in, which fills the region `span`, or
its fault at the regions `spans`. -/
def Operand.ofEval (span : Span) (spans : LiteralFault → List Span) :
    Except LiteralFault Value → Except Diagnostic Operand
  | .ok value => .ok ⟨value, span⟩
  | .error fault => .error (fault.at (spans fault))

/-- Where the faults of a unary operator at `place` are shown: an operand of
the wrong type with the operator, a result out of range with the whole
operation. -/
def UnaryOp.faultSpans (place x : Span) : LiteralFault → List Span
  | .invalidOperand .. => [place, x]
  | _ => [place.through x]

/-- Applies an operator that fills the region `place` before its operand. -/
def UnaryOp.apply (op : UnaryOp) (place : Span) (x : Operand) : Except Diagnostic Operand :=
  Operand.ofEval (place.through x.span) (faultSpans place x.span) (op.eval x.value)

/-- Where the faults of a binary operator at `place` are shown: operands of the
wrong types with the operator, a divisor of zero with it, and a result out of
range with the whole operation. -/
def BinaryOp.faultSpans (place x y : Span) : LiteralFault → List Span
  | .invalidOperands .. => [x, place, y]
  | .divisionByZero => [place, y]
  | _ => [x.through y]

/-- Applies an operator that fills the region `place` between its operands. -/
def BinaryOp.apply (op : BinaryOp) (place : Span) (x y : Operand) :
    Except Diagnostic Operand :=
  Operand.ofEval (x.span.through y.span) (faultSpans place x.span y.span)
    (op.eval x.value y.value)

end Innermost
