/-!
The operators of the literal language and how tightly the binary ones bind.
-/

namespace Innermost

/-- The operators before one operand. -/
inductive UnaryOp where
  /-- `!`, the logical opposite. -/
  | not
  /-- `-`, the opposite number. -/
  | neg
  deriving DecidableEq

/-- The sign of an operator. -/
def UnaryOp.symbol : UnaryOp → String
  | not => "!"
  | neg => "-"

/-- The operators between two operands. -/
inductive BinaryOp where
  | or
  | and
  | eq
  | ne
  | lt
  | le
  | gt
  | ge
  | add
  | sub
  | mul
  | div
  | mod
  deriving DecidableEq

/-- The groups of operators that bind equally tightly, the loosest first. -/
inductive Level where
  | or
  | and
  | equality
  | comparison
  | term
  | factor
  deriving DecidableEq

/-- The number of a level; of two operators the one with the greater rank is
applied first. -/
def Level.rank : Level → Nat
  | or => 0
  | and => 1
  | equality => 2
  | comparison => 3
  | term => 4
  | factor => 5

namespace BinaryOp

/-- The sign of an operator. -/
def symbol : BinaryOp → String
  | or => "||"
  | and => "&&"
  | eq => "=="
  | ne => "!="
  | lt => "<"
  | le => "<="
  | gt => ">"
  | ge => ">="
  | add => "+"
  | sub => "-"
  | mul => "*"
  | div => "/"
  | mod => "%"

/-- The level an operator belongs to. -/
def level : BinaryOp → Level
  | or => .or
  | and => .and
  | eq | ne => .equality
  | lt | le | gt | ge => .comparison
  | add | sub => .term
  | mul | div | mod => .factor

/-- The rank of an operator. -/
def rank (op : BinaryOp) : Nat := op.level.rank

end BinaryOp

end Innermost
