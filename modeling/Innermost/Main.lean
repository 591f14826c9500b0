import Innermost.CommandLine.Command

/-!
The command itself: it looks at its surroundings, does what its arguments ask
for, prints, and reports errors on the error stream.
-/

namespace Innermost.Main

/-- All that can still be read from a stream, after the bytes `seen`. -/
partial def readAll (stream : IO.FS.Stream) (seen : ByteArray) : IO ByteArray := do
  let bytes ← stream.read 65536
  if bytes.isEmpty then return seen else readAll stream (seen ++ bytes)

/-- Shows an output. -/
def showOutput (output : Output) : IO Unit := do
  let out ← IO.getStdout
  out.putStr output.text
  out.flush
  for message in output.errors do
    IO.eprintln ("error: " ++ message)

/-- Shows what a command came to. -/
def finish (outcome : Outcome) : IO UInt32 := do
  showOutput outcome.output
  return UInt32.ofNat outcome.status

/-- The next line that is typed, unless the input has ended. -/
def readTyped (stream : IO.FS.Stream) : IO (Option TypedLine) := do
  try
    let line ← stream.getLine
    return (typedLines line.toUTF8).head?
  catch _ => return some .undecodable

/-- Holds a session, line by line. -/
partial def converse (o : Options) (words : Supply) : IO UInt32 := do
  showOutput (.print prompt)
  match ← readTyped (← IO.getStdin) with
  | none => return 0
  | some .undecodable => return UInt32.ofNat undecodableStatus
  | some .uneditable => return UInt32.ofNat uneditableStatus
  | some (.text line) =>
      let (output, words) := (Request.ofLine line).respond o words
      showOutput output
      converse o words

/-- A seed from the clock, for those who do not care about it. -/
def freshSeed : IO UInt64 := do
  return UInt64.ofNat (← IO.monoNanosNow)

/-- What a file holds, if it can be read. -/
def contents (path : String) : IO (Option ByteArray) := do
  try return some (← IO.FS.readBinFile path)
  catch _ => return none

/-- Does what the arguments ask for. -/
def run (arguments : List String) : IO UInt32 := do
  match Options.read arguments with
  | .error fault =>
      IO.eprintln ("error: " ++ fault.message)
      return UInt32.ofNat badArguments
  | .ok o =>
      let words := Supply.ofSeed (o.seed.getD (← freshSeed))
      let stdin ← IO.getStdin
      match o.task (← stdin.isTty) with
      | .practice depth => finish (practiceOnce o depth words)
      | .file path => finish (batchBytes o (← contents path))
      | .standardInput => finish (batchBytes o (some (← readAll stdin .empty)))
      | .session => converse o words

end Innermost.Main

/-- Simplifies parenthesised expressions one innermost group at a time. -/
def main (arguments : List String) : IO UInt32 := Innermost.Main.run arguments
