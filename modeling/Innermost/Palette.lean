import Innermost.Expr.Basic

/-!
Colours for terminals.

The two parentheses of a group are painted in the colour of its depth, so that
partners can be told from their neighbours; the seven colours repeat.
-/

namespace Innermost

/-- The colours of the palette. -/
inductive Colour where
  | blue
  | yellow
  | magenta
  | green
  | cyan
  | red
  | white
  deriving DecidableEq

namespace Colour

/-- The number that selects a colour for the foreground of a terminal. -/
def code : Colour → String
  | red => "31"
  | green => "32"
  | yellow => "33"
  | blue => "34"
  | magenta => "35"
  | cyan => "36"
  | white => "37"

/-- A text between the sequences that turn a colour on and off. -/
def paint (colour : Colour) (text : String) : String :=
  "\x1b[" ++ colour.code ++ "m" ++ text ++ "\x1b[0m"

/-- The colours of the depths, from the root down. -/
def ofRemainder : Fin 7 → Colour
  | 0 => blue
  | 1 => yellow
  | 2 => magenta
  | 3 => green
  | 4 => cyan
  | 5 => red
  | 6 => white

/-- The colour of a group below `depth` others. -/
def ofDepth (depth : Nat) : Colour := ofRemainder (Fin.ofNat 7 depth)

end Colour

namespace Expr

mutual

/-- The text of an expression below `depth` groups, its parentheses painted. -/
def paintAt (depth : Nat) : Expr → String
  | .atom text => text
  | .group children =>
      let colour := Colour.ofDepth depth
      colour.paint "(" ++ paintAllAt (depth + 1) children ++ colour.paint ")"

/-- The painted texts of neighbours, with one space between each two. -/
def paintAllAt (depth : Nat) : List Expr → String
  | [] => ""
  | [e] => paintAt depth e
  | e :: f :: es => paintAt depth e ++ " " ++ paintAllAt depth (f :: es)

end

/-- The text of an expression with the parentheses of each group painted in the
colour of its depth. -/
def paint (e : Expr) : String := e.paintAt 0

end Expr

end Innermost
