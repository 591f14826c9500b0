import Innermost.Expr.Reading
import Innermost.Rendering

/-!
Traces: the simplification of an expression, told step by step.

A trace works on texts, as someone does who solves an exercise on paper. Each
step writes the expression down with the reduced group marked, writes it again
with the value in its place, and then reads the plain line back to go on from
it; a value that is left alone is put into parentheses again.

* `Run` is what happened, whether or not it came to an end; `traceRun` is the
  whole run.
* `Trace` is what an exercise shows of a run that came to an end: every step but
  the last, which gives the answer away.
-/

namespace Innermost

/-- What a simplification depends on. -/
structure Context where
  /-- Gives groups their values. -/
  evaluator : Evaluator := .literal
  /-- Makes the reduced group stand out. -/
  marker : Marker := .brackets
  /-- The most steps that may be taken. -/
  maxSteps : Nat := 1024

/-- One step of a simplification. -/
structure Step where
  /-- The expression before the step, the group to be reduced marked. -/
  before : String
  /-- The expression after the step, the value marked. -/
  after : String
  deriving DecidableEq

/-- What happened in a simplification. -/
structure Run where
  /-- The steps taken, in order. -/
  steps : List Step
  /-- The groups that the evaluator was asked about, in order. -/
  asked : List String
  /-- The final expression, or what stopped the simplification. -/
  outcome : Except Failure Expr

namespace Run

/-- A run that stops without a step. -/
def stopped (outcome : Except Failure Expr) : Run := ⟨[], [], outcome⟩

/-- A run in which questions, and steps they led to, come before another one. -/
def after (steps : List Step) (asked : List String) (run : Run) : Run :=
  ⟨steps ++ run.steps, asked ++ run.asked, run.outcome⟩

end Run

/-- The failure of a simplification that has not come to an end after `taken`
steps. -/
def unfinished (source : String) (taken : Nat) : Failure :=
  .inInput source ⟨.reduction (.unfinished taken), [Span.whole source]⟩

/-- Goes on with the simplification of `source` at the expression `e`, when
`taken` steps have been taken and `left` more are allowed.

The line after a step always reads back, as a smaller expression; a run that
finds otherwise stops. -/
def runFrom (ctx : Context) (source : String) : (left taken : Nat) → Expr → Run
  | left, taken, e =>
      match e.target? with
      | none => .stopped (.ok e)
      | some t =>
          match left with
          | 0 => .stopped (.error (unfinished source taken))
          | left + 1 =>
              let consulted := t.node.evaluate ctx.evaluator
              match consulted.answer with
              | .error failure => .after [] consulted.asked (.stopped (.error failure))
              | .ok value =>
                  let step : Step :=
                    ⟨e.textWith (ctx.marker .target t.node.text) t.path,
                      e.textWith (ctx.marker .result value) t.path⟩
                  let line := parenthesised (Reduction.apply ⟨t.path, value⟩ e).text
                  .after [step] consulted.asked <|
                    match Expr.parse line with
                    | .error d => .stopped (.error (.inInput line d))
                    | .ok next =>
                        if next.nodeCount < e.nodeCount then
                          runFrom ctx source left (taken + 1) next
                        else .stopped (.error (unfinished source (taken + 1)))

/-- The simplification of the expression that a text holds. -/
def traceRun (ctx : Context) (source : String) : Run :=
  match Expr.parse source with
  | .error d => .stopped (.error (.inInput source d))
  | .ok e => runFrom ctx source ctx.maxSteps 0 e

/-- What an exercise shows of a simplification. -/
structure Trace where
  /-- Every step but the last. -/
  steps : List Step
  /-- The final expression. -/
  answer : Expr
  deriving DecidableEq

/-- What an exercise shows of a run, if it came to an end. -/
def Run.trace (run : Run) : Except Failure Trace :=
  run.outcome.map fun answer => ⟨run.steps.dropLast, answer⟩

/-- The steps that lead from a text to its answer, and the answer. -/
def trace (ctx : Context) (source : String) : Except Failure Trace :=
  (traceRun ctx source).trace

end Innermost
