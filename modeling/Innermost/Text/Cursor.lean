import Innermost.Text.Basic

/-!
A place in a text: the characters already consumed, the latest first, and those
that are left.

* No character is ever lost: `Cursor.source` is the same before and after every
  move (`source_next`, `source_skipWhile`).
* A cursor only moves forwards, over whole characters, so its `offset` always
  lies between two of them.
-/

namespace Innermost

/-- A place between two characters of a text. -/
structure Cursor where
  /-- The characters before the place, the nearest first. -/
  passed : List Char
  /-- The characters after the place, the nearest first. -/
  rest : List Char
  deriving DecidableEq

namespace Cursor

/-- The place before the first character of a text. -/
def ofText (text : String) : Cursor := ⟨[], text.toList⟩

/-! ### Looking -/

/-- The whole text. -/
def source (c : Cursor) : String := String.ofList (c.passed.reverse ++ c.rest)

/-- The text that has not been consumed. -/
def remaining (c : Cursor) : String := String.ofList c.rest

/-- The place, as the number of bytes before it. -/
def offset (c : Cursor) : Nat := byteLength c.passed

/-- The place after the last character. -/
def stop (c : Cursor) : Nat := c.offset + byteLength c.rest

/-- The next character, if one is left. -/
def peek? (c : Cursor) : Option Char := c.rest.head?

/-- Whether every character has been consumed. -/
def atEnd (c : Cursor) : Bool := c.rest.isEmpty

/-- The empty region at the end of the text. -/
def endSpan (c : Cursor) : Span := Span.empty c.stop

/-- The region of the next character; at the end of the text, the empty region
there. -/
def span (c : Cursor) : Span :=
  match c.rest with
  | [] => c.endSpan
  | x :: _ => ⟨c.offset, c.offset + x.utf8Size⟩

/-- The region of all that has not been consumed. -/
def remainingSpan (c : Cursor) : Span := ⟨c.offset, c.stop⟩

/-! ### Moving -/

/-- The place after the next character; at the end of the text, the same
place. -/
def next (c : Cursor) : Cursor :=
  match c.rest with
  | [] => c
  | x :: rest => ⟨x :: c.passed, rest⟩

/-- The place before the next character that `p` does not hold of. -/
def skipWhile (p : Char → Bool) (c : Cursor) : Cursor :=
  ⟨(c.rest.takeWhile p).reverse ++ c.passed, c.rest.dropWhile p⟩

/-- The place before the next character that is not blank. -/
def skipBlanks (c : Cursor) : Cursor := c.skipWhile isBlank

/-! ### Nothing is lost -/

@[simp] theorem source_ofText (text : String) : (ofText text).source = text := by
  simp [ofText, source]

@[simp] theorem source_next (c : Cursor) : c.next.source = c.source := by
  rcases c with ⟨passed, _ | ⟨x, rest⟩⟩ <;> simp [next, source]

@[simp] theorem source_skipWhile (p : Char → Bool) (c : Cursor) :
    (c.skipWhile p).source = c.source := by
  simp [skipWhile, source]

@[simp] theorem rest_skipWhile (p : Char → Bool) (c : Cursor) :
    (c.skipWhile p).rest = c.rest.dropWhile p := rfl

end Cursor

end Innermost
