import Innermost.Text.Cluster
import Innermost.Text.Basic

/-!
Lines typed at a terminal that hands on every key, the backspace too.

* `typedLines` cuts what is typed into lines, each of which may fail to be a text.
* A backspace takes back the cluster before it. `Typed` is what has been typed of a
  line, and `typedText` is the line that results.
-/

namespace Innermost

/-! ### Keys -/

/-- The key that takes back what was typed last. -/
def backspace : Char := '\x08'

/-- What has been typed of a line. -/
structure Typed where
  /-- The characters, the latest first. -/
  text : List Char
  /-- The sizes of the clusters that a backspace can still take back, the latest
  first. -/
  sizes : List Nat

/-- The size of a cluster as it is remembered: the number of its bytes, in a single
byte. Only that many bytes are taken back again, also of a cluster that is longer. -/
def rememberedSize (cluster : List Char) : Nat := byteLength cluster % 256

/-- Characters without the first ones, which have to take exactly `size` bytes. -/
def dropBytes : (size : Nat) → List Char → Option (List Char)
  | 0, cs => some cs
  | _ + 1, [] => none
  | size + 1, c :: cs =>
      if c.utf8Size ≤ size + 1 then dropBytes (size + 1 - c.utf8Size) cs else none

namespace Typed

/-- Nothing. -/
def nothing : Typed := ⟨[], []⟩

/-- Types one more cluster. A backspace at the start of a line does nothing; it fails
if the bytes to take back are not whole characters. -/
def press (t : Typed) (cluster : List Char) : Option Typed :=
  if cluster = [backspace] then
    match t.sizes with
    | [] => some t
    | size :: sizes => (dropBytes size t.text).map (⟨·, sizes⟩)
  else some ⟨cluster.reverse ++ t.text, rememberedSize cluster :: t.sizes⟩

end Typed

/-- The line that results from what is typed, unless a backspace fails. -/
def typedText (line : String) : Option String :=
  ((clusters line.toList).foldlM Typed.press .nothing).map fun t => String.ofList t.text.reverse

/-! ### Lines -/

/-- A line that is typed. -/
inductive TypedLine where
  | text (line : String)
  /-- The bytes are not the form of any text. -/
  | undecodable
  /-- A backspace would take a part of a character back. -/
  | uneditable
  deriving DecidableEq

/-- The line with the given bytes, the latest first. -/
def TypedLine.ofBytes (line : List UInt8) : TypedLine :=
  match String.fromUTF8? ⟨line.reverse.toArray⟩ with
  | none => .undecodable
  | some line =>
      match typedText line with
      | none => .uneditable
      | some line => .text line

/-- The lines of what is typed, that goes on with the given bytes after those of
an unfinished `line`, the latest first. The end of a line is a line feed, or a
carriage return and a line feed. -/
def typedLinesFrom (line : List UInt8) : List UInt8 → List TypedLine
  | [] => if line.isEmpty then [] else [.ofBytes line]
  | 10 :: bytes =>
      let line :=
        match line with
        | 13 :: line => line
        | line => line
      .ofBytes line :: typedLinesFrom [] bytes
  | b :: bytes => typedLinesFrom (b :: line) bytes

/-- The lines of what is typed. -/
def typedLines (bytes : ByteArray) : List TypedLine :=
  typedLinesFrom [] bytes.data.toList

end Innermost
