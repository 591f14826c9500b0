/-!
Characters, words and regions of a text.

* `isBlank`: the four characters that separate the parts of an expression;
* `isSpace`: the Unicode property `White_Space`, by which a line counts as
  empty and by which the arguments of a command are trimmed (`trim`). Every
  blank is a space (`isSpace_of_isBlank`).
* `editDistance` tells how far two words are apart.
* `byteLength` is the number of bytes of a run of characters; it is additive
  (`byteLength_append`), and no character is empty (`byteLength_pos`); that of a
  whole text is its size (`byteLength_toList`);
* `Span` is a half-open region, from its first byte to the first byte after it.
  Places in a text are counted in the bytes of its UTF-8 form, so that a region
  means the same to every tool that shows it.
-/

namespace Innermost

/-! ### Separators of expressions -/

/-- The characters that separate the parts of an expression: space, tab, line
feed, and the carriage return that ends a line together with it. -/
def isBlank (c : Char) : Bool :=
  c = ' ' || c = '\t' || c = '\n' || c = '\r'

/-! ### Unicode white space -/

/-- The characters with the Unicode property `White_Space`: twenty-five code
points in ten ranges. -/
def isSpace (c : Char) : Bool :=
  let n := c.toNat
  (0x09 ≤ n && n ≤ 0x0D) || n = 0x20 || n = 0x85 || n = 0xA0 || n = 0x1680 ||
    (0x2000 ≤ n && n ≤ 0x200A) || n = 0x2028 || n = 0x2029 || n = 0x202F ||
    n = 0x205F || n = 0x3000

theorem isSpace_of_isBlank {c : Char} (h : isBlank c = true) : isSpace c = true := by
  simp only [isBlank, Bool.or_eq_true, decide_eq_true_eq] at h
  rcases h with ((rfl | rfl) | rfl) | rfl <;> rfl

/-- The text without the white space at its two ends. -/
def trim (text : String) : String :=
  let cs := text.toList.dropWhile isSpace
  String.ofList (cs.reverse.dropWhile isSpace).reverse

/-! ### Edit distances

The edit distance of two words is the least number of insertions, deletions and
replacements of one character that turn one into the other. The distances from a
word to the prefixes of another form a row; `nextRow` gives the row of the word that
is one character longer. -/

namespace EditDistance

/-- The distances from the empty word to each prefix of `word`. -/
def firstRow (word : List Char) : List Nat :=
  List.range (word.length + 1)

/-- The entries of the next row after one that is `left`: each is reached from
its left neighbour by an insertion, from above by a deletion, and from the left
above by a replacement, which is free where the two characters agree. -/
def extendRow (x : Char) : (left : Nat) → (word : List Char) → (row : List Nat) → List Nat
  | left, c :: word, diagonal :: above :: row =>
      let entry :=
        if c = x then diagonal else 1 + min diagonal (min above left)
      entry :: extendRow x entry word (above :: row)
  | _, _, _ => []

/-- The distances of `u ++ [x]` to each prefix of `word`, from those of `u`. -/
def nextRow (word : List Char) (row : List Nat) (x : Char) : List Nat :=
  let first := row.headD 0 + 1
  first :: extendRow x first word row

end EditDistance

/-- The edit distance between two words. -/
def editDistance (a b : String) : Nat :=
  let row := b.toList.foldl (EditDistance.nextRow a.toList) (EditDistance.firstRow a.toList)
  row.getLastD 0

/-! ### Lengths in bytes -/

/-- The number of bytes that the characters take in UTF-8. -/
def byteLength (cs : List Char) : Nat :=
  cs.foldl (fun n c => n + c.utf8Size) 0

theorem foldl_add_utf8Size (cs : List Char) (n : Nat) :
    cs.foldl (fun n c => n + c.utf8Size) n = n + byteLength cs := by
  induction cs generalizing n with
  | nil => rfl
  | cons c cs ih =>
      rw [byteLength, List.foldl_cons, List.foldl_cons, ih, ih]
      omega

@[simp] theorem byteLength_nil : byteLength [] = 0 := rfl

@[simp] theorem byteLength_cons (c : Char) (cs : List Char) :
    byteLength (c :: cs) = c.utf8Size + byteLength cs := by
  rw [byteLength, List.foldl_cons, foldl_add_utf8Size]
  omega

@[simp] theorem byteLength_append (cs ds : List Char) :
    byteLength (cs ++ ds) = byteLength cs + byteLength ds := by
  induction cs with
  | nil => simp
  | cons c cs ih => rw [List.cons_append, byteLength_cons, byteLength_cons, ih]; omega

@[simp] theorem byteLength_reverse (cs : List Char) :
    byteLength cs.reverse = byteLength cs := by
  induction cs with
  | nil => rfl
  | cons c cs ih => rw [List.reverse_cons, byteLength_append, ih]; simp; omega

/-- Only the empty run has no bytes. -/
theorem byteLength_pos (c : Char) (cs : List Char) : 0 < byteLength (c :: cs) := by
  have := Char.utf8Size_pos c
  rw [byteLength_cons]
  omega

/-- The bytes of a text are those of its characters. -/
theorem byteLength_toList (text : String) : byteLength text.toList = text.utf8ByteSize := by
  have key (cs : List Char) : byteLength cs = (String.ofList cs).utf8ByteSize := by
    induction cs with
    | nil => rfl
    | cons c cs ih =>
        rw [byteLength_cons, ih, ← List.singleton_append, String.ofList_append,
          String.utf8ByteSize_append, ← String.singleton_eq_ofList,
          String.utf8ByteSize_singleton]
  rw [key, String.ofList_toList]

/-! ### Regions -/

/-- The region of a text from byte `start` up to, and without, byte `stop`. -/
structure Span where
  start : Nat
  stop : Nat
  deriving DecidableEq

namespace Span

/-- The empty region at a place. -/
def empty (place : Nat) : Span := ⟨place, place⟩

/-- The region that a whole text fills. -/
def whole (text : String) : Span := ⟨0, text.utf8ByteSize⟩

/-- The region from the start of `a` to the end of `b`. -/
def through (a b : Span) : Span := ⟨a.start, b.stop⟩

end Span

end Innermost
