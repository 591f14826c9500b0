import Innermost.Literal.Operator
import Innermost.Text.Basic

/-!
The tokens of the literal language.

A text is cut from left to right into lexemes, each as long as possible: a run
of blanks, a run of digits, a name, one of the operators of two characters, or
a single character. What kind of token a lexeme is depends on the lexeme alone
(`TokenKind.ofLexeme`); a character that no rule knows is a `symbol`.
-/

namespace Innermost

/-! ### Kinds -/

/-- The kinds of tokens. -/
inductive TokenKind where
  /-- A run of blanks. -/
  | blank
  /-- One of the words `true` and `false`. -/
  | truth (b : Bool)
  /-- A run of decimal digits. -/
  | integer
  /-- Any other word of letters, digits and underscores. -/
  | name
  /-- The parenthesis `(`. -/
  | opening
  /-- The parenthesis `)`. -/
  | closing
  /-- The sign `!`. -/
  | bang
  /-- The sign of a binary operator; `-` is also that of a unary one. -/
  | operator (op : BinaryOp)
  /-- A character that belongs to no other token. -/
  | symbol
  deriving DecidableEq

namespace TokenKind

/-- The name of a kind in messages. -/
def text : TokenKind → String
  | blank => "Whitespace"
  | truth true => "True"
  | truth false => "False"
  | integer => "Int"
  | name => "Name"
  | opening => "OpenParen"
  | closing => "CloseParen"
  | bang => "Not"
  | operator .add => "Add"
  | operator .sub => "Sub"
  | operator .mul => "Mul"
  | operator .div => "Div"
  | operator .mod => "Mod"
  | operator .eq => "Eq"
  | operator .ne => "NotEq"
  | operator .lt => "Less"
  | operator .le => "LessEq"
  | operator .gt => "Greater"
  | operator .ge => "GreaterEq"
  | operator .and => "And"
  | operator .or => "Or"
  | symbol => "Symbol"

/-- Every kind of token. -/
def all : List TokenKind :=
  [blank, truth true, truth false, integer, name, opening, closing, bang,
    operator .add, operator .sub, operator .mul, operator .div, operator .mod,
    operator .eq, operator .ne, operator .lt, operator .le, operator .gt,
    operator .ge, operator .and, operator .or, symbol]

theorem mem_all (k : TokenKind) : k ∈ all := by
  cases k with
  | truth b => cases b <;> decide
  | operator op => cases op <;> decide
  | _ => decide

end TokenKind

/-! ### Characters -/

/-- The characters a name may begin with: the letters of the English alphabet
and the underscore. -/
def isNameStart (c : Char) : Bool := c.isAlpha || c = '_'

/-- The characters a name may go on with; digits as well. -/
def isNamePart (c : Char) : Bool := isNameStart c || c.isDigit

/-- Whether two characters form one operator. -/
def isOperatorPair (c d : Char) : Bool :=
  match c, d with
  | '=', '=' | '!', '=' | '<', '=' | '>', '=' | '&', '&' | '|', '|' => true
  | _, _ => false

/-! ### Lexemes -/

/-- What `rest` adds to a lexeme that begins with `c`. -/
def lexemeTail (c : Char) (rest : List Char) : List Char :=
  if isBlank c then rest.takeWhile isBlank
  else if c.isDigit then rest.takeWhile Char.isDigit
  else if isNameStart c then rest.takeWhile isNamePart
  else
    match rest with
    | d :: _ => if isOperatorPair c d then [d] else []
    | [] => []

/-- The kind of token that a lexeme is. -/
def TokenKind.ofLexeme : List Char → TokenKind
  | ['('] => .opening
  | [')'] => .closing
  | ['!'] => .bang
  | ['+'] => .operator .add
  | ['-'] => .operator .sub
  | ['*'] => .operator .mul
  | ['/'] => .operator .div
  | ['%'] => .operator .mod
  | ['=', '='] => .operator .eq
  | ['!', '='] => .operator .ne
  | ['<'] => .operator .lt
  | ['<', '='] => .operator .le
  | ['>'] => .operator .gt
  | ['>', '='] => .operator .ge
  | ['&', '&'] => .operator .and
  | ['|', '|'] => .operator .or
  | ['t', 'r', 'u', 'e'] => .truth true
  | ['f', 'a', 'l', 's', 'e'] => .truth false
  | c :: _ =>
      if isBlank c then .blank
      else if c.isDigit then .integer
      else if isNameStart c then .name
      else .symbol
  | [] => .symbol

/-! ### Tokens -/

/-- A lexeme with its kind and its place. -/
structure Token where
  kind : TokenKind
  span : Span
  lexeme : String
  deriving DecidableEq

/-- The tokens of the characters `cs`, blanks included, of which the first one
stands at byte `start`. -/
def Token.scan (start : Nat) : List Char → List Token
  | [] => []
  | c :: rest =>
      let tail := lexemeTail c rest
      let stop := start + byteLength (c :: tail)
      ⟨.ofLexeme (c :: tail), ⟨start, stop⟩, String.ofList (c :: tail)⟩ ::
        scan stop (rest.drop tail.length)
termination_by cs => cs.length
decreasing_by
  rw [List.length_drop, List.length_cons]
  omega

/-- The tokens of a text, without the blanks between them. -/
def tokens (text : String) : List Token :=
  (Token.scan 0 text.toList).filter fun token => token.kind ≠ .blank

end Innermost
