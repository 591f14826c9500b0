import Innermost.Expr.Basic
import Innermost.Random.Supply

/-!
Random boolean expressions to practise on.

A practice expression of depth `0` is an operation on two literals; one of a
greater depth combines a literal with a practice expression, on a random side,
that is one level less deep or, by chance, just as deep. So it holds at least
one group more than its depth says.
-/

namespace Innermost.Practice

/-- A random truth value. -/
def boolean (s : Supply) : Expr × Supply :=
  let (heads, s) := s.flip
  (.atom (if heads then "true" else "false"), s)

/-- A random operator. -/
def operator (s : Supply) : Expr × Supply :=
  let (second, s) := s.choose
  (.atom (if second then "||" else "&&"), s)

/-- The parts of an operation on two random truth values. -/
def operation (s : Supply) : List Expr × Supply :=
  let (left, s) := boolean s
  let (op, s) := operator s
  let (right, s) := boolean s
  ([left, op, right], s)

theorem unused_operator_le (s : Supply) : (operator s).2.unused ≤ s.unused :=
  s.unused_choose_le

theorem unused_boolean_le (s : Supply) : (boolean s).2.unused ≤ s.unused :=
  s.unused_flip_le

/-- The depth of the nested expression, when the second alternative is one
level less. -/
def nestedDepth (depth : Nat) (shallower : Bool) : Nat :=
  if shallower then depth - 1 else depth

/-- A nested expression is less deep, or comes at the expense of a word. -/
theorem nestedDepth_add_unused_lt {depth : Nat} (hd : depth ≠ 0) (s : Supply) :
    nestedDepth depth s.choose.1 + s.choose.2.unused < depth + s.unused := by
  have hle := s.unused_choose_le
  cases hc : s.choose.1 with
  | true =>
      rw [nestedDepth, if_pos rfl]
      omega
  | false =>
      have hlt := s.unused_choose_lt hc
      rw [nestedDepth, if_neg Bool.false_ne_true]
      omega

/-- A random expression of a given depth. -/
def expression (depth : Nat) (s : Supply) : Expr × Supply :=
  if depth = 0 then
    let (parts, s) := operation s
    (.group parts, s)
  else
    let shallower := s.choose
    let depth' := nestedDepth depth shallower.1
    let nestedFirst := shallower.2.flip
    if nestedFirst.1 then
      let (nested, s) := expression depth' nestedFirst.2
      let (op, s) := operator s
      let (literal, s) := boolean s
      (.group [nested, op, literal], s)
    else
      let literal := boolean nestedFirst.2
      let op := operator literal.2
      let (nested, s) := expression depth' op.2
      (.group [literal.1, op.1, nested], s)
termination_by depth + s.unused
decreasing_by
  all_goals
    have hnested := nestedDepth_add_unused_lt ‹depth ≠ 0› s
    have hflip := s.choose.2.unused_flip_le
  · exact Nat.lt_of_le_of_lt (Nat.add_le_add_left hflip _) hnested
  · have hliteral := unused_boolean_le s.choose.2.flip.2
    have hop := unused_operator_le (boolean s.choose.2.flip.2).2
    exact Nat.lt_of_le_of_lt
      (Nat.add_le_add_left (Nat.le_trans hop (Nat.le_trans hliteral hflip)) _) hnested

end Innermost.Practice
