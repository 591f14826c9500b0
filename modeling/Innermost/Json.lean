import Innermost.Trace

/-!
The JSON form of a trace: one line without spaces.

A step is an object of its two texts, an atom an object of its word, a group an
object of the array of its children. Only what JSON requires is escaped in a
text: quotation marks, backslashes and control characters.
-/

namespace Innermost

namespace Json

/-- The digit of a number below 16. -/
def hexDigit (n : Nat) : Char :=
  if n < 10 then Char.ofNat ('0'.toNat + n) else Char.ofNat ('a'.toNat + (n - 10))

/-- A character inside quotation marks. -/
def escape (c : Char) : List Char :=
  match c with
  | '"' => ['\\', '"']
  | '\\' => ['\\', '\\']
  | '\n' => ['\\', 'n']
  | '\r' => ['\\', 'r']
  | '\t' => ['\\', 't']
  | '\x08' => ['\\', 'b']
  | '\x0c' => ['\\', 'f']
  | c =>
      if c.toNat < 0x20 then
        ['\\', 'u', '0', '0', hexDigit (c.toNat / 16), hexDigit (c.toNat % 16)]
      else [c]

/-- A text as a JSON string. -/
def quote (text : String) : String :=
  "\"" ++ String.ofList (text.toList.flatMap escape) ++ "\""

/-- A JSON array of values that are already written. -/
def array (items : List String) : String := "[" ++ ",".intercalate items ++ "]"

/-- A JSON object of values that are already written. -/
def object (fields : List (String × String)) : String :=
  "\x7b" ++ ",".intercalate (fields.map fun (key, value) => quote key ++ ":" ++ value) ++ "\x7d"

end Json

namespace Expr

mutual

/-- The JSON form of an expression. -/
def toJson : Expr → String
  | .atom text => Json.object [("Atom", Json.quote text)]
  | .group children => Json.object [("Group", Json.array (toJsonAll children))]

/-- The JSON forms of several expressions. -/
def toJsonAll : List Expr → List String
  | [] => []
  | e :: es => toJson e :: toJsonAll es

end

end Expr

/-- The JSON form of a step. -/
def Step.toJson (step : Step) : String :=
  Json.object [("before", Json.quote step.before), ("after", Json.quote step.after)]

/-- The JSON form of a trace. -/
def Trace.toJson (trace : Trace) : String :=
  Json.object
    [("steps", Json.array (trace.steps.map Step.toJson)), ("answer", trace.answer.toJson)]

end Innermost
