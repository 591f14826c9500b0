import Innermost.Diagnostic
import Innermost.Expr.Basic
import Innermost.Text.Cursor

/-!
Reading expressions from a text.

An expression is a group if it starts with `(`, and an atom otherwise; an atom
goes on to the next blank or `)`, so an opening parenthesis inside it is an
ordinary character. Groups may be nested to the depth `maxDepth`.

Every reader takes a place in a text and answers with what it read, or with
what stopped it, together with the place where it stopped.
-/

namespace Innermost

/-- What a reader found, and the place where it stopped. -/
structure Reading where
  result : Except Diagnostic Expr
  cursor : Cursor

namespace Reading

/-- Stops at a place, which is shown, because of a fault. -/
def failAt (c : Cursor) (fault : ReadFault) : Reading :=
  ⟨.error ⟨.read fault, [c.span]⟩, c⟩

/-- The characters of an atom: all but blanks and `)`. -/
def isAtomChar (c : Char) : Bool := !isBlank c && c ≠ ')'

/-- Reads an atom. -/
def atom (c : Cursor) : Reading :=
  let c := c.skipBlanks
  if c.atEnd then failAt c .unexpectedEnd
  else
    let word := c.rest.takeWhile isAtomChar
    if word.isEmpty then failAt c .emptyAtom
    else ⟨.ok (.atom (String.ofList word)), c.skipWhile isAtomChar⟩

/-- Reads expressions with `element` up to the `)` that closes the group which
opened at `opening`; the children `read` so far come latest first.

Each child takes at least one character, so a text as long as the part that is
left, `bound`, is used up no sooner than that part. -/
def children (element : Cursor → Reading) (opening : Cursor) :
    (bound : List Char) → (read : List Expr) → Cursor → Reading
  | bound, read, c =>
      let c := c.skipBlanks
      match c.peek?, bound with
      | some ')', _ => ⟨.ok (.group read.reverse), c.next⟩
      | some _, _ :: bound =>
          match element c with
          | ⟨.ok e, c⟩ => children element opening bound (e :: read) c
          | ⟨.error d, c⟩ => ⟨.error d, c⟩
      | _, _ => ⟨.error ⟨.read .missingClosing, [opening.span, c.endSpan]⟩, c⟩

/-- Reads an expression at a place before which all but `room` of the allowed
groups are open. -/
def element : (room : Nat) → Cursor → Reading
  | room, c =>
      let c := c.skipBlanks
      match c.peek? with
      | none => failAt c .unexpectedEnd
      | some '(' =>
          match room with
          | 0 => failAt c .tooDeep
          | room + 1 => children (element room) c c.next.rest [] c.next
      | some _ => atom c

/-- Reads an expression: a group if it starts with `(`, and an atom otherwise. -/
def expr (c : Cursor) : Reading := element maxDepth c

/-- Reads a group. -/
def group (c : Cursor) : Reading :=
  let c := c.skipBlanks
  if c.peek? = some '(' then expr c else failAt c .missingOpening

/-- Reads an expression that only blanks may follow. -/
def full (c : Cursor) : Reading :=
  match expr c with
  | ⟨.error d, c⟩ => ⟨.error d, c⟩
  | ⟨.ok e, c⟩ =>
      let c := c.skipBlanks
      if c.atEnd then ⟨.ok e, c⟩
      else ⟨.error ⟨.read .trailingText, [c.remainingSpan]⟩, c⟩

end Reading

/-- Reads a text that holds exactly one expression. -/
def Expr.parse (text : String) : Except Diagnostic Expr :=
  (Reading.full (Cursor.ofText text)).result

end Innermost
