import Innermost.CommandLine.Output
import Innermost.CommandLine.Typing
import Innermost.Practice

/-!
Sessions at a terminal: each line is answered before the next one is read.

A line that begins with `:random` asks for a practice expression, which is
shown and answered; every other line that is not blank is answered as it
stands. All practice expressions of a session come from one supply of random
words, and nothing else draws from it.
-/

namespace Innermost

/-- What is shown before a line is read. -/
def prompt : String := "> "

/-- The depth of a practice expression if none is given. -/
def defaultDepth : Nat := 2

/-- What a line of a session asks for. -/
inductive Request where
  /-- Nothing. -/
  | none
  /-- A practice expression. -/
  | practice (depth : Nat)
  /-- A practice expression, of a depth that makes no sense. -/
  | invalidDepth (text : String) (fault : CountFault)
  /-- The simplification of an expression. -/
  | expression (source : String)
  deriving DecidableEq

/-- The characters after the command `:random`, if a line begins with it. -/
def afterRandom : List Char → Option (List Char)
  | ':' :: 'r' :: 'a' :: 'n' :: 'd' :: 'o' :: 'm' :: cs => some cs
  | _ => none

/-- Tells what a line asks for. -/
def Request.ofLine (line : String) : Request :=
  let text := trim line
  if text.isEmpty then .none
  else
    match afterRandom text.toList with
    | Option.none => .expression line
    | some cs =>
        let depth := trim (String.ofList cs)
        if depth.isEmpty then .practice defaultDepth
        else
          match readCount depth with
          | .ok depth => .practice depth
          | .error fault => .invalidDepth depth fault

/-- Shows a practice expression and answers it. -/
def practise (o : Options) (depth : Nat) (words : Supply) : Output × Supply :=
  let (e, words) := Practice.expression depth words
  (.print (e.text ++ "\n") ++ answer o e.text, words)

/-- Does what a line asks for. -/
def Request.respond (o : Options) (words : Supply) : Request → Output × Supply
  | .none => ({}, words)
  | .practice depth => practise o depth words
  | .invalidDepth text fault =>
      (.report ("invalid depth " ++ quoted text ++ ": " ++ fault.message), words)
  | .expression source => (answer o source, words)

/-- The status of a session that stops at a line that is not a text. -/
def undecodableStatus : Nat := 1

/-- The status of a session that breaks down at a line that cannot be edited. -/
def uneditableStatus : Nat := 101

/-- A session over the lines that are typed, up to the end of input or to a line
that cannot be read. Failed lines do not make the session fail. -/
def session (o : Options) (words : Supply) : List TypedLine → Outcome
  | [] => ⟨0, .print prompt⟩
  | .undecodable :: _ => ⟨undecodableStatus, .print prompt⟩
  | .uneditable :: _ => ⟨uneditableStatus, .print prompt⟩
  | .text line :: rest =>
      let (output, words) := (Request.ofLine line).respond o words
      let after := session o words rest
      ⟨after.status, .print prompt ++ output ++ after.output⟩

end Innermost
