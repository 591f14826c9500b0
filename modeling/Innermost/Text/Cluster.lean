import Innermost.Text.BreakTable

/-!
Clusters: the characters of a text that a reader sees as one sign, such as a letter
with its accents, a syllable of Hangul, a flag or a family of emoji.

* `BreakClass` sorts the characters by how they join their neighbours, and `joins`
  tells whether a character belongs to the cluster before it.
* `clusters` cuts a text into its clusters. It loses nothing (`flatten_clusters`).
-/

namespace Innermost

/-! ### Classes of characters -/

/-- How a character joins its neighbours. -/
inductive BreakClass where
  | carriageReturn
  | lineFeed
  | control
  /-- A mark on the character before it. -/
  | extend
  /-- A mark that joins the consonants on its two sides. -/
  | linker
  /-- The mark that keeps consonants apart, U+200C. -/
  | nonJoiner
  /-- The mark that joins pictographs, U+200D. -/
  | joiner
  /-- A mark beside the character before it. -/
  | spacing
  /-- A sign before the character after it. -/
  | prepend
  /-- One of the letters that spell the code of a region, two of which form a flag. -/
  | regional
  /-- A consonant that a syllable of Hangul begins with. -/
  | leading
  /-- A vowel of Hangul. -/
  | vowel
  /-- A consonant that a syllable of Hangul ends with. -/
  | trailing
  /-- A whole syllable of Hangul that ends with its vowel. -/
  | openSyllable
  /-- A whole syllable of Hangul that ends with a consonant. -/
  | closedSyllable
  /-- A consonant of a script with conjuncts. -/
  | consonant
  | pictograph
  | other
  deriving DecidableEq

namespace BreakClass

/-- The class of a code point of the scripts with letters that form syllables: the
blocks of Hangul, and five vowels that combine in the same way. -/
def ofSyllabic (n : Nat) : Option BreakClass :=
  if (0x1100 ≤ n && n ≤ 0x115F) || (0xA960 ≤ n && n ≤ 0xA97C) then some leading
  else if (0x1160 ≤ n && n ≤ 0x11A7) || (0xD7B0 ≤ n && n ≤ 0xD7C6) || n = 0x16D63 ||
      (0x16D67 ≤ n && n ≤ 0x16D6A) then some vowel
  else if (0x11A8 ≤ n && n ≤ 0x11FF) || (0xD7CB ≤ n && n ≤ 0xD7FB) then some trailing
  else if 0xAC00 ≤ n && n ≤ 0xD7A3 then
    if (n - 0xAC00) % 28 = 0 then some openSyllable else some closedSyllable
  else none

/-- The class of a code point that one of the tables holds. -/
def ofTable (n : Nat) : BreakClass :=
  if BreakTable.inRanges BreakTable.linker n then linker
  else if BreakTable.inRanges BreakTable.extend n then extend
  else if BreakTable.inRanges BreakTable.spacing n then spacing
  else if BreakTable.inRanges BreakTable.control n then control
  else if BreakTable.inRanges BreakTable.prepend n then prepend
  else if BreakTable.inRanges BreakTable.consonant n then consonant
  else if BreakTable.inRanges BreakTable.pictograph n then pictograph
  else other

/-- The class of a character. -/
def ofChar (c : Char) : BreakClass :=
  let n := c.toNat
  if 0x20 ≤ n && n < 0x7F then other
  else if n = 0x0D then carriageReturn
  else if n = 0x0A then lineFeed
  else if n = 0x200C then nonJoiner
  else if n = 0x200D then joiner
  else if 0x1F1E6 ≤ n && n ≤ 0x1F1FF then regional
  else (ofSyllabic n).getD (ofTable n)

/-- Whether a character of the class stands alone, whatever is around it. -/
def isSeparate : BreakClass → Bool
  | carriageReturn | lineFeed | control => true
  | _ => false

/-- Whether a character of the class belongs to the one before it, whatever that
is. -/
def isMark : BreakClass → Bool
  | extend | linker | nonJoiner | joiner | spacing => true
  | _ => false

/-- Whether two letters or syllables of Hangul belong to one syllable. -/
def formSyllable : BreakClass → BreakClass → Bool
  | leading, leading | leading, vowel | leading, openSyllable | leading, closedSyllable => true
  | openSyllable, vowel | openSyllable, trailing | vowel, vowel | vowel, trailing => true
  | closedSyllable, trailing | trailing, trailing => true
  | _, _ => false

end BreakClass

/-! ### What a cluster ends with -/

/-- Whether a consonant follows on characters, the nearest first, as the next part of
a conjunct: before marks of which at least one is a linker stands a consonant. -/
def endsInConjunct : (linked : Bool) → List Char → Bool
  | _, [] => false
  | linked, c :: before =>
      match BreakClass.ofChar c with
      | .consonant => linked
      | .linker => endsInConjunct true before
      | .extend | .joiner => endsInConjunct linked before
      | _ => false

/-- Whether characters, the nearest first, are a pictograph and the marks on it. -/
def endsInPictograph : List Char → Bool
  | [] => false
  | c :: before =>
      match BreakClass.ofChar c with
      | .pictograph => true
      | .extend | .linker | .nonJoiner => endsInPictograph before
      | _ => false

/-- Whether characters, the nearest first, begin with an odd number of letters of
region codes. -/
def endsInHalfFlag : List Char → Bool
  | [] => false
  | c :: before => BreakClass.ofChar c = .regional && !endsInHalfFlag before

/-- Whether a character belongs to the cluster of which `last`, and `before` it the
nearest first, are the characters so far. -/
def joins (last : Char) (before : List Char) (c : Char) : Bool :=
  let a := BreakClass.ofChar last
  let b := BreakClass.ofChar c
  if a = .carriageReturn && b = .lineFeed then true
  else if a.isSeparate || b.isSeparate then false
  else
    a = .prepend || b.isMark || a.formSyllable b ||
      (b = .consonant && endsInConjunct false (last :: before)) ||
      (a = .joiner && b = .pictograph && endsInPictograph before) ||
      (b = .regional && endsInHalfFlag (last :: before))

/-! ### Clusters -/

/-- The clusters of a text that goes on with the given characters after a cluster of
which `last`, and `before` it the nearest first, are the characters so far. -/
def clustersFrom (last : Char) (before : List Char) : List Char → List (List Char)
  | [] => [(last :: before).reverse]
  | c :: cs =>
      if joins last before c then clustersFrom c (last :: before) cs
      else (last :: before).reverse :: clustersFrom c [] cs

/-- The clusters of a text. -/
def clusters : List Char → List (List Char)
  | [] => []
  | c :: cs => clustersFrom c [] cs

theorem flatten_clustersFrom (last : Char) (before cs : List Char) :
    (clustersFrom last before cs).flatten = (last :: before).reverse ++ cs := by
  induction cs generalizing last before with
  | nil => simp [clustersFrom]
  | cons c cs ih =>
      rw [clustersFrom]
      split
      · rw [ih, List.reverse_cons, List.append_assoc, List.singleton_append]
      · rw [List.flatten_cons, ih]
        rfl

/-- The clusters of a text are its characters in their order. -/
theorem flatten_clusters (cs : List Char) : (clusters cs).flatten = cs := by
  cases cs with
  | nil => rfl
  | cons c cs => exact flatten_clustersFrom c [] cs

end Innermost
