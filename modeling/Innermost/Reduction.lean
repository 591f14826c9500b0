import Innermost.Evaluator
import Innermost.Expr.Target

/-!
Reduction of one group of an expression to an atom.

* `Expr.evaluate` asks an evaluator about a reducible group and accepts only an
  answer that can stand in for the group as one atom.
* `Expr.simplify` reduces the target of an expression; one call is one
  reduction.
* `Expr.settle` simplifies until no group is reducible. It ends because every
  reduction replaces a group of at least two children by one atom
  (`nodeCount_replace_lt`).
-/

namespace Innermost

/-! ### Failures -/

/-- The text that a failure is about. -/
inductive Place where
  /-- The expression that was given. -/
  | input
  /-- The group that was to be evaluated. -/
  | group
  deriving DecidableEq

/-- A diagnostic together with the text that its regions point into. -/
structure Failure where
  place : Place
  source : String
  diagnostic : Diagnostic
  deriving DecidableEq

namespace Failure

/-- A failure that concerns the given expression. -/
def inInput (source : String) (d : Diagnostic) : Failure := ⟨.input, source, d⟩

/-- A failure that concerns the text of a group. -/
def inGroup (source : String) (d : Diagnostic) : Failure := ⟨.group, source, d⟩

/-- A failure of the reduction of the group with this text, all of which it
concerns. -/
def ofGroup (source : String) (fault : ReductionFault) : Failure :=
  inGroup source ⟨.reduction fault, [Span.whole source]⟩

end Failure

/-! ### Evaluation of a group -/

/-- Whether a text reads back as exactly one atom, wherever it stands. -/
def isAtomic (text : String) : Bool :=
  !text.toList.isEmpty && text.toList.all fun c => !isBlank c && c ≠ '(' && c ≠ ')'

/-- Accepts what an evaluator answered about the group `source` if it is an
atom. -/
def acceptAnswer (source : String) : Except Diagnostic String → Except Failure String
  | .error d => .error (.inGroup source d)
  | .ok answer =>
      if isAtomic answer then .ok answer else .error (.ofGroup source (.notAtomic answer))

/-- The atom that a reducible group evaluates to. -/
def Expr.evaluate (f : Evaluator) (e : Expr) : Consultation (Except Failure String) :=
  if e.isReducible then (Consultation.ask f e.text).map (acceptAnswer e.text)
  else .pure (.error (.ofGroup e.text .notReducible))

theorem Expr.evaluate_of_isReducible (f : Evaluator) {e : Expr} (h : e.isReducible = true) :
    e.evaluate f = ⟨[e.text], acceptAnswer e.text (f e.text)⟩ := by
  rw [evaluate, if_pos h]
  rfl

/-! ### Reductions -/

/-- The replacement of the group at the end of a path by an atom. -/
structure Reduction where
  path : Path
  value : String
  deriving DecidableEq

namespace Reduction

/-- The expression after the reduction. -/
def apply (r : Reduction) (e : Expr) : Expr := e.replace r.path (.atom r.value)

/-- The reduction of the target of an expression, if it has one. -/
def find (f : Evaluator) (e : Expr) : Consultation (Except Failure (Option Reduction)) :=
  match e.target? with
  | none => .pure (.ok none)
  | some t => (t.node.evaluate f).map (·.map fun value => some ⟨t.path, value⟩)

end Reduction

/-- The expression after the reduction of its target; an expression without one
stays as it is. -/
def Expr.simplify (f : Evaluator) (e : Expr) : Consultation (Except Failure Expr) :=
  (Reduction.find f e).map (·.map fun
    | some r => r.apply e
    | none => e)

/-! ### Repeated reduction -/

/-- Successive reductions of an expression. -/
structure Descent where
  /-- The expressions after each reduction, in order. -/
  steps : List Expr
  /-- The groups that the evaluator was asked about, in order. -/
  asked : List String
  /-- The final expression, or what stopped the reductions. -/
  outcome : Except Failure Expr

/-- Simplifies until no group is reducible, or until the evaluator fails. -/
def Expr.settle (f : Evaluator) (e : Expr) : Descent :=
  match h : e.target? with
  | none => ⟨[], [], .ok e⟩
  | some t =>
      let consulted := t.node.evaluate f
      match consulted.answer with
      | .error failure => ⟨[], consulted.asked, .error failure⟩
      | .ok value =>
          let next := e.replace t.path (.atom value)
          have : next.nodeCount < e.nodeCount := nodeCount_replace_lt h value
          let rest := next.settle f
          ⟨next :: rest.steps, consulted.asked ++ rest.asked, rest.outcome⟩
termination_by e.nodeCount

end Innermost
