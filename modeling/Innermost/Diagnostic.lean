import Innermost.Literal.Token
import Innermost.Literal.Value

/-!
What can go wrong, and how it is told.

A `Diagnostic` is a cause together with the regions of a text that it concerns.
There are three kinds of causes: the text of an expression cannot be read
(`ReadFault`), a group cannot be evaluated as literals (`LiteralFault`), or a
reduction cannot go on (`ReductionFault`). `Cause.wording` is the only place
that turns a cause into words.
-/

namespace Innermost

/-! ### Causes -/

/-- The most groups that may be open at once in the text of an expression. -/
def maxDepth : Nat := 256

/-- Why a text is not an expression. -/
inductive ReadFault where
  /-- The text ends where an expression has to stand. -/
  | unexpectedEnd
  /-- Something follows the expression. -/
  | trailingText
  /-- A group has to begin here, and does not. -/
  | missingOpening
  /-- The text ends inside a group. -/
  | missingClosing
  /-- A `)` stands where an atom has to stand. -/
  | emptyAtom
  /-- More than `maxDepth` groups are open at once. -/
  | tooDeep
  deriving DecidableEq

/-- Why a text of literals and operators has no value. -/
inductive LiteralFault where
  /-- The text ends where an operand has to stand. -/
  | unexpectedEnd
  /-- Something follows the last operand. -/
  | trailingTokens
  /-- A token stands where only others may. -/
  | unexpectedToken (expected : List TokenKind) (found : TokenKind)
  /-- A name stands where a literal has to stand; `suggestions` are the
  literals it resembles. -/
  | unknownName (name : String) (suggestions : List String)
  /-- A literal does not fit in 64 bits. -/
  | integerTooLarge
  /-- A binary operator does not take operands of these types. -/
  | invalidOperands (op : BinaryOp) (left right : ValueType)
  /-- A unary operator does not take an operand of this type. -/
  | invalidOperand (op : UnaryOp) (operand : ValueType)
  /-- A divisor is zero. -/
  | divisionByZero
  /-- A result does not fit in 64 bits. -/
  | overflow
  deriving DecidableEq

/-- Why an expression cannot be reduced further. -/
inductive ReductionFault where
  /-- The expression to evaluate is no reducible group. -/
  | notReducible
  /-- The evaluator's result is no atom. -/
  | notAtomic (result : String)
  /-- The limit on the number of steps is reached. -/
  | unfinished (steps : Nat)
  deriving DecidableEq

/-- What went wrong. -/
inductive Cause where
  | read (fault : ReadFault)
  | literal (fault : LiteralFault)
  | reduction (fault : ReductionFault)
  deriving DecidableEq

/-- What went wrong, and the regions of the text that it concerns. -/
structure Diagnostic where
  cause : Cause
  spans : List Span
  deriving DecidableEq

/-! ### Words -/

/-- How a cause is told: what happened, what each region shows, if anything,
and advice. -/
structure Wording where
  message : String
  labels : List (Option String)
  help : Option String := none

/-- Names in backquotes. -/
def quoted (text : String) : String := "`" ++ text ++ "`"

/-- The wording of the causes for which a text is not an expression. -/
def ReadFault.wording : ReadFault → Wording
  | unexpectedEnd =>
      { message := "unexpected end of input"
        labels := [some "you might need to add another expression here"] }
  | trailingText =>
      { message := "expected end of input"
        labels := [some "I could not understand the remaining text here"]
        help := some "wrap the whole expression in parentheses to combine its parts" }
  | missingOpening =>
      { message := "malformed group"
        labels := [some "I expected a `(` here"]
        help := some "every group must start with `(`" }
  | missingClosing =>
      { message := "malformed group"
        labels := [some "this group is never closed", some "I expected a `)` here"]
        help := some "add a `)` to close the group" }
  | emptyAtom =>
      { message := "expected an atom"
        labels := [some "I expected to see an atom before this"]
        help := some "this `)` does not close any group; try removing it" }
  | tooDeep =>
      { message := "expression is nested too deeply"
        labels :=
          [some ("this group is nested more than " ++ Nat.repr maxDepth ++ " levels deep")]
        help := some "split the expression into smaller parts" }

/-- The advice on integers that do not fit. -/
def rangeHelp : String :=
  "integers must be between -9223372036854775808 and 9223372036854775807"

/-- What a region shows that holds an operand of the wrong type. -/
def typeLabel (type : ValueType) : String :=
  "this operand has type " ++ quoted type.text

/-- The wording of the causes for which a text of literals has no value. -/
def LiteralFault.wording : LiteralFault → Wording
  | unexpectedEnd =>
      { message := "unexpected end of expression"
        labels := [some "I expected to see an operand here"] }
  | trailingTokens =>
      { message := "expected end of expression"
        labels := [some "I could not understand the remaining expression here"] }
  | unexpectedToken expected found =>
      { message := "unexpected token"
        labels :=
          [some ("expected one of: " ++ ", ".intercalate (expected.map TokenKind.text))]
        help := some ("found " ++ found.text) }
  | unknownName name suggestions =>
      { message := quoted name ++ " is not a literal"
        labels := [some "this atom"]
        help :=
          if suggestions.isEmpty then some "literals are `true`, `false`, and integers"
          else some ("did you mean " ++ " or ".intercalate (suggestions.map quoted) ++ "?") }
  | integerTooLarge =>
      { message := "integer literal is too large"
        labels := [some "this literal"]
        help := some rangeHelp }
  | invalidOperands op left right =>
      { message := "cannot apply the " ++ quoted op.symbol ++ " operator to these operands"
        labels := [some (typeLabel left), some "this operator", some (typeLabel right)] }
  | invalidOperand op operand =>
      { message := "cannot apply the " ++ quoted op.symbol ++ " operator to this operand"
        labels := [some "this operator", some (typeLabel operand)] }
  | divisionByZero =>
      { message := "division by zero"
        labels := [none, some "this operand evaluates to zero"] }
  | overflow =>
      { message := "integer overflow"
        labels := [some "the result of this operation is out of range"]
        help := some rangeHelp }

/-- The wording of the causes for which a reduction cannot go on. -/
def ReductionFault.wording : ReductionFault → Wording
  | notReducible =>
      { message := "cannot evaluate a group that is not reducible"
        labels :=
          [some "this group still contains other groups, or has fewer than two children"]
        help := some "you should never see this error; please report this as a bug" }
  | notAtomic result =>
      { message := "the evaluator did not produce a single atom"
        labels := [some ("this group evaluated to " ++ quoted result)]
        help :=
          some "an evaluator must return one literal with no whitespace or parentheses" }
  | unfinished steps =>
      { message := "the expression did not finish simplifying"
        labels := [some ("gave up after " ++ Nat.repr steps ++ " step(s)")]
        help :=
          some "the evaluator might be returning unchanged text, or the step limit is too low" }

/-- The wording of a cause. -/
def Cause.wording : Cause → Wording
  | read fault => fault.wording
  | literal fault => fault.wording
  | reduction fault => fault.wording

/-- What happened. -/
def Diagnostic.message (d : Diagnostic) : String := d.cause.wording.message

/-- What the regions show: one label for each region, as far as there are both
regions and labels. -/
def Diagnostic.labels (d : Diagnostic) : List (Option String) :=
  d.cause.wording.labels.take d.spans.length

/-- Advice. -/
def Diagnostic.help (d : Diagnostic) : Option String := d.cause.wording.help

end Innermost
