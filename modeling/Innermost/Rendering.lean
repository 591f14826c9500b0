import Innermost.Palette
import Innermost.Reduction

/-!
Texts of expressions in which the target stands out.

* A `Marker` makes the group that a step reduces stand out. It sees only the text to
  mark and the part it plays, and it is never read back.
* `Expr.textWith` writes an expression with a given text in place of one of its
  nodes.
* `Expr.render` writes an expression whose target may be marked, collapsed to
  the atom that it evaluates to, or both.
* `parenthesised` gives a bare text the parentheses of a group.
-/

namespace Innermost

/-! ### Markers -/

/-- The part that a marked text plays in a step. -/
inductive Mark where
  /-- The group about to be reduced. -/
  | target
  /-- The atom that has taken its place. -/
  | result
  deriving DecidableEq

/-- Decorates a text according to the part it plays. -/
abbrev Marker := Mark → String → String

namespace Marker

/-- Puts the text into square brackets. -/
def brackets : Marker := fun _ text => "[" ++ text ++ "]"

/-- Leaves the text as it is. -/
def unmarked : Marker := fun _ text => text

/-- Puts the text between tags that name the part it plays. -/
def tags : Marker
  | .target, text => "<t>" ++ text ++ "</t>"
  | .result, text => "<r>" ++ text ++ "</r>"

/-- Shows a target in green and a result in blue. -/
def colours : Marker
  | .target, text => Colour.green.paint text
  | .result, text => Colour.blue.paint text

end Marker

/-! ### Renderings -/

/-- The text of an expression with `piece` in place of the node at the end of a
path; a path that leads nowhere changes nothing. -/
def Expr.textWith (piece : String) : Path → Expr → String
  | [], _ => piece
  | _ :: _, .atom text => text
  | i :: path, .group children =>
      let write (j : Nat) (e : Expr) : String :=
        if j = i then textWith piece path e else e.text
      "(" ++ " ".intercalate (children.mapIdx write) ++ ")"

/-- How the target of an expression is shown. -/
structure RenderOptions where
  /-- Whether the target is marked. -/
  annotate : Bool := false
  /-- Whether the target is shown as the atom that it evaluates to. -/
  collapse : Bool := false
  deriving DecidableEq

/-- The text of an expression with its target shown as `options` say. An
expression without a target is written plainly. The evaluator is asked only if
the target is collapsed. -/
def Expr.render (f : Evaluator) (marker : Marker) (options : RenderOptions) (e : Expr) :
    Consultation (Except Failure String) :=
  let decorate (mark : Mark) (text : String) : String :=
    if options.annotate then marker mark text else text
  match e.target? with
  | none => .pure (.ok e.text)
  | some t =>
      if options.collapse then
        (t.node.evaluate f).map (·.map fun value => e.textWith (decorate .result value) t.path)
      else .pure (.ok (e.textWith (decorate .target t.node.text) t.path))

/-- The text as that of a group: parentheses are put around a text that does not
begin with one. -/
def parenthesised (text : String) : String :=
  if text.toList.head? = some '(' then text else "(" ++ text ++ ")"

end Innermost
