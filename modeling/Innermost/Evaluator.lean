import Innermost.Literal.Evaluation

/-!
Evaluators: what turns the text of a group, such as `(true && false)`, into the
text of one literal, such as `false`. Nothing else gives meaning to the words
of an expression.

An evaluator is a function, so what it is asked cannot be told from what it
answers; a computation that consults one says so in its result, a
`Consultation`.
-/

namespace Innermost

/-- Turns the text of a group of atoms into the text of one atom. -/
abbrev Evaluator := String → Except Diagnostic String

namespace Evaluator

/-- Evaluates truth values and integers. -/
def literal : Evaluator := fun text => (evaluate text).map Value.text

/-- Always gives the same answer. -/
def const (answer : String) : Evaluator := fun _ => .ok answer

/-- Gives the group back. -/
def echo : Evaluator := fun text => .ok text

/-- Runs the atoms of a group together: takes the parentheses off both ends and
leaves the spaces out. -/
def concat : Evaluator := fun text =>
  let isParen (c : Char) : Bool := c = '(' || c = ')'
  let inner := ((text.toList.dropWhile isParen).reverse.dropWhile isParen).reverse
  .ok (String.ofList (inner.filter (· ≠ ' ')))

/-- Looks the group up, and asks `otherwise` about a group that is not
listed. -/
def lookup (table : List (String × String)) (otherwise : Evaluator) : Evaluator := fun text =>
  match table.lookup text with
  | some answer => .ok answer
  | none => otherwise text

/-- Always fails. -/
def fail (d : Diagnostic) : Evaluator := fun _ => .error d

end Evaluator

/-! ### Consultations -/

/-- The result of a computation that consults an evaluator. -/
structure Consultation (α : Type) where
  /-- The groups that the evaluator was asked about, in order. -/
  asked : List String
  /-- The result. -/
  answer : α

namespace Consultation

variable {α β : Type}

/-- A result for which no evaluator was needed. -/
def pure (a : α) : Consultation α := ⟨[], a⟩

/-- Asks an evaluator about one group. -/
def ask (f : Evaluator) (text : String) : Consultation (Except Diagnostic String) :=
  ⟨[text], f text⟩

/-- Goes on from a result without asking. -/
def map (g : α → β) (c : Consultation α) : Consultation β := ⟨c.asked, g c.answer⟩

@[simp] theorem asked_pure (a : α) : (pure a).asked = [] := rfl

@[simp] theorem answer_pure (a : α) : (pure a).answer = a := rfl

@[simp] theorem asked_ask (f : Evaluator) (text : String) : (ask f text).asked = [text] := rfl

@[simp] theorem answer_ask (f : Evaluator) (text : String) : (ask f text).answer = f text := rfl

@[simp] theorem asked_map (g : α → β) (c : Consultation α) : (c.map g).asked = c.asked := rfl

@[simp] theorem answer_map (g : α → β) (c : Consultation α) :
    (c.map g).answer = g c.answer := rfl

end Consultation

end Innermost
