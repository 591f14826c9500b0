import Innermost.Trace

/-!
The arguments of the command.

An option is written `--name value` or `--name=value`, and may be given once; a
lone `--` ends the options. What is not an option names the file to read, of
which there is at most one, and none with `--random`. Counts are natural numbers
of 64 bits in decimal, with an optional plus sign (`readCount`).
-/

namespace Innermost

/-! ### Counts -/

/-- Why a text is not a count. -/
inductive CountFault where
  /-- There is no text. -/
  | empty
  /-- There is something else than a digit, or no digit at all. -/
  | invalidDigit
  /-- The number does not fit in 64 bits. -/
  | tooLarge
  deriving DecidableEq

/-- The wording of a fault. -/
def CountFault.message : CountFault → String
  | empty => "cannot parse integer from empty string"
  | invalidDigit => "invalid digit found in string"
  | tooLarge => "number too large to fit in target type"

/-- Takes up one more digit of a number less than `2 ^ 64`; what is wrong is told of
the first character at which reading cannot go on. -/
def countDigit (n : Nat) (c : Char) : Except CountFault Nat :=
  if c.isDigit then
    let n := Nat.ofDigitChars 10 [c] n
    if n < 18446744073709551616 then .ok n else .error .tooLarge
  else .error .invalidDigit

/-- Reads a count. -/
def readCount (text : String) : Except CountFault Nat :=
  match text.toList with
  | [] => .error .empty
  | ['+'] => .error .invalidDigit
  | '+' :: digits => digits.foldlM countDigit 0
  | digits => digits.foldlM countDigit 0

/-! ### Options -/

/-- How the reduced group is made to stand out. -/
inductive MarkerChoice where
  | colours
  | brackets
  | none
  deriving DecidableEq

/-- The marker that is chosen. -/
def MarkerChoice.marker : MarkerChoice → Marker
  | colours => .colours
  | brackets => .brackets
  | none => .unmarked

/-- What the arguments say. -/
structure Options where
  /-- The file to read expressions from, one on each line. -/
  file : Option String := none
  /-- The depth of the practice expression to make. -/
  random : Option Nat := none
  /-- The seed of practice expressions. -/
  seed : Option UInt64 := none
  /-- How the reduced group stands out; in colours if nothing is said. -/
  marker : Option MarkerChoice := none
  /-- The most steps that may be taken; 1024 if nothing is said. -/
  maxSteps : Option Nat := none
  /-- Whether traces are printed as lines of JSON. -/
  json : Bool := false
  deriving DecidableEq

namespace Options

/-- The chosen marker. -/
def markerChoice (o : Options) : MarkerChoice := o.marker.getD .colours

/-- The context of the traces. -/
def context (o : Options) : Context :=
  { marker := o.markerChoice.marker, maxSteps := o.maxSteps.getD 1024 }

end Options

/-! ### Arguments -/

/-- Why the arguments cannot be understood. -/
inductive ArgumentFault where
  /-- There is no such option. -/
  | unknown (argument : String)
  /-- An option is given twice. -/
  | repeated (name : String)
  /-- An option needs a value and has none. -/
  | missingValue (name : String)
  /-- An option has a value and takes none. -/
  | unexpectedValue (name : String)
  /-- The value of an option, or the name of the file, is not a valid one. -/
  | invalidValue (name value : String)
  /-- A second file is named. -/
  | surplus (argument : String)
  /-- Both a file and a practice expression are asked for. -/
  | conflict
  deriving DecidableEq

/-- The wording of a fault. -/
def ArgumentFault.message : ArgumentFault → String
  | unknown argument => "unexpected argument " ++ quoted argument
  | repeated name => "the argument " ++ quoted name ++ " cannot be used multiple times"
  | missingValue name => "a value is required for " ++ quoted name
  | unexpectedValue name => "the argument " ++ quoted name ++ " takes no value"
  | invalidValue name value => "invalid value " ++ quoted value ++ " for " ++ quoted name
  | surplus argument => "unexpected argument " ++ quoted argument
  | conflict => "a file cannot be used with `--random`"

/-- What an argument is, apart from the others. -/
inductive Argument where
  /-- The end of the options. -/
  | terminator
  /-- An option, perhaps with a value of its own. -/
  | option (name : String) (value : Option String)
  /-- A single minus sign before other characters, which means nothing. -/
  | short (text : String)
  /-- Anything else. -/
  | operand (text : String)

/-- Tells what an argument is. -/
def Argument.ofText (text : String) : Argument :=
  match text.toList with
  | ['-', '-'] => .terminator
  | '-' :: '-' :: cs =>
      let name := "--" ++ String.ofList (cs.takeWhile (· ≠ '='))
      match cs.dropWhile (· ≠ '=') with
      | [] => .option name none
      | _ :: value => .option name (some (String.ofList value))
  | '-' :: _ :: _ => .short text
  | _ => .operand text

namespace Options

/-- The value of a setting that may be given once. -/
def once {α : Type} (name : String) (given : Option α) (value : Option α) (text : String) :
    Except ArgumentFault (Option α) :=
  match given, value with
  | some _, _ => .error (.repeated name)
  | none, none => .error (.invalidValue name text)
  | none, some value => .ok (some value)

/-- The number that a text writes. -/
def number? (text : String) : Option Nat := (readCount text).toOption

/-- The way of marking that a text names. -/
def marker? : String → Option MarkerChoice
  | "ansi" => some .colours
  | "brackets" => some .brackets
  | "none" => some .none
  | _ => none

/-- Takes up the name of a file. -/
def withFile (o : Options) (text : String) : Except ArgumentFault Options :=
  if text.isEmpty then .error (.invalidValue "FILE" text)
  else if o.file.isSome then .error (.surplus text)
  else .ok { o with file := some text }

/-- Takes up an option that has no value. -/
def withFlag (o : Options) (name : String) : Except ArgumentFault Options :=
  if o.json then .error (.repeated name) else .ok { o with json := true }

/-- Takes up an option with its value. -/
def withValue (o : Options) (name value : String) : Except ArgumentFault Options := do
  match name with
  | "--random" => .ok { o with random := ← once name o.random (number? value) value }
  | "--seed" =>
      .ok { o with seed := ← once name o.seed ((number? value).map UInt64.ofNat) value }
  | "--marker" => .ok { o with marker := ← once name o.marker (marker? value) value }
  | "--max-steps" => .ok { o with maxSteps := ← once name o.maxSteps (number? value) value }
  | _ => .error (.unknown name)

/-- The options that take a value. -/
def valued : List String := ["--random", "--seed", "--marker", "--max-steps"]

/-- Takes up arguments one by one. -/
def readFrom (o : Options) : List String → Except ArgumentFault Options
  | [] => .ok o
  | text :: rest => do
      match Argument.ofText text with
      | .terminator => rest.foldlM withFile o
      | .operand text => readFrom (← o.withFile text) rest
      | .short text => .error (.unknown text)
      | .option "--json" none => readFrom (← o.withFlag text) rest
      | .option "--json" (some _) => .error (.unexpectedValue "--json")
      | .option name (some value) => readFrom (← o.withValue name value) rest
      | .option name none =>
          if name ∈ valued then
            match rest with
            | [] => .error (.missingValue name)
            | value :: rest => readFrom (← o.withValue name value) rest
          else .error (.unknown name)

/-- Reads the arguments of the command. -/
def read (arguments : List String) : Except ArgumentFault Options := do
  let o ← readFrom {} arguments
  if o.file.isSome && o.random.isSome then .error .conflict else .ok o

end Options

end Innermost
