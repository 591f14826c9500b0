import Innermost.CommandLine.Output
import Innermost.CommandLine.Session

/-!
The whole command: what its arguments ask for, and what it comes to.
-/

namespace Innermost

/-- What the arguments ask for. -/
inductive Task where
  /-- To make and answer one practice expression. -/
  | practice (depth : Nat)
  /-- To answer the lines of a file. -/
  | file (path : String)
  /-- To answer the lines of standard input. -/
  | standardInput
  /-- To hold a session at the terminal. -/
  | session

/-- The task, given whether standard input is a terminal. -/
def Options.task (o : Options) (terminal : Bool) : Task :=
  match o.random, o.file with
  | some depth, _ => .practice depth
  | none, some path => .file path
  | none, none => if terminal then .session else .standardInput

/-- Makes and answers one practice expression, which is shown unless traces are
printed as JSON. -/
def practiceOnce (o : Options) (depth : Nat) (words : Supply) : Outcome :=
  let e := (Practice.expression depth words).1
  let shown : Output := if o.json then {} else .print (e.text ++ "\n")
  let output := shown ++ answer o e.text
  ⟨if output.errors.isEmpty then 0 else 1, output⟩

/-- Answers the lines of a text given as bytes; without such a text the command
fails. -/
def batchBytes (o : Options) (bytes : Option ByteArray) : Outcome :=
  match bytes.bind String.fromUTF8? with
  | some text => batch o text
  | none => ⟨1, {}⟩

/-- What a command finds when it starts. -/
structure Surroundings where
  /-- The contents of the files that can be read. -/
  file : String → Option ByteArray
  /-- Whether standard input is a terminal. -/
  terminal : Bool
  /-- What standard input holds. -/
  input : ByteArray
  /-- The seed of random words if none is given. -/
  seed : UInt64

/-- The status of a command whose arguments cannot be understood. -/
def badArguments : Nat := 2

/-- What a command comes to. -/
def command (arguments : List String) (here : Surroundings) : Outcome :=
  match Options.read arguments with
  | .error _ => ⟨badArguments, {}⟩
  | .ok o =>
      let words := Supply.ofSeed (o.seed.getD here.seed)
      match o.task here.terminal with
      | .practice depth => practiceOnce o depth words
      | .file path => batchBytes o (here.file path)
      | .standardInput => batchBytes o (some here.input)
      | .session => session o words (typedLines here.input)

end Innermost
