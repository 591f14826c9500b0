import Innermost.CommandLine.Options
import Innermost.Json

/-!
What the command prints for one expression, and what the whole of a command
comes to.

Of a text with an expression on each line, every line that is not blank is
answered on its own, whatever becomes of the others (`batch`).
-/

namespace Innermost

/-- What has been printed, and the errors that have been reported. -/
structure Output where
  /-- The text on standard output. -/
  text : String := ""
  /-- The messages of the reported errors, in order. -/
  errors : List String := []
  deriving DecidableEq

namespace Output

/-- One output after another. -/
def append (a b : Output) : Output := ⟨a.text ++ b.text, a.errors ++ b.errors⟩

instance : Append Output := ⟨append⟩

/-- Printed text. -/
def print (text : String) : Output := { text }

/-- A reported error. -/
def report (message : String) : Output := { errors := [message] }

/-- Outputs one after another. -/
def concat (outputs : List Output) : Output :=
  ⟨String.join (outputs.map text), outputs.flatMap errors⟩

end Output

/-- What a command has come to. -/
structure Outcome where
  /-- Zero for success. -/
  status : Nat
  output : Output
  deriving DecidableEq

/-! ### One expression -/

/-- The lines of a step. -/
def Step.lines (step : Step) : String :=
  "  " ++ step.before ++ "\n→ " ++ step.after ++ "\n"

/-- The lines of a trace that ends a simplification of the text `source`; where
colours are used, the painted expression comes first. -/
def Trace.lines (o : Options) (source : String) (trace : Trace) : String :=
  let painted :=
    match o.markerChoice, Expr.parse source with
    | .colours, .ok e => e.paint ++ "\n"
    | _, _ => ""
  painted ++ String.join (trace.steps.map Step.lines) ++ "= " ++ trace.answer.text ++ "\n"

/-- What is printed for the expression that a text holds. -/
def showTrace (o : Options) (source : String) : Except Failure String :=
  (trace o.context source).map fun trace =>
    if o.json then trace.toJson ++ "\n" else trace.lines o source

/-- Prints the trace of the expression that a text holds, or reports why there
is none. -/
def answer (o : Options) (source : String) : Output :=
  match showTrace o source with
  | .ok text => .print text
  | .error failure => .report failure.diagnostic.message

/-! ### Expressions on lines -/

/-- The lines of a text that goes on with the given characters after those of an
unfinished `line`, the latest first. A line ends with a line feed, or with a
carriage return and a line feed; the last one may also end with the text. -/
def linesFrom (line : List Char) : List Char → List String
  | [] => if line.isEmpty then [] else [String.ofList line.reverse]
  | '\n' :: cs =>
      let line :=
        match line with
        | '\r' :: line => line
        | line => line
      String.ofList line.reverse :: linesFrom [] cs
  | c :: cs => linesFrom (c :: line) cs

/-- The lines of a text. -/
def lines (text : String) : List String := linesFrom [] text.toList

/-- Whether a line holds nothing but white space. -/
def isBlankLine (line : String) : Bool := line.toList.all isSpace

/-- Answers every line that is not blank. The status tells whether all of them
succeeded. -/
def batch (o : Options) (text : String) : Outcome :=
  let answers := ((lines text).filter fun line => !isBlankLine line).map (answer o)
  let output := Output.concat answers
  ⟨if output.errors.isEmpty then 0 else 1, output⟩

end Innermost
