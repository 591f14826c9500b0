import Innermost.Random.KeyStream

/-!
Supplies of random words and the choices that are drawn from them.

A supply holds finitely many words; past its end every word is `2 ^ 63`. Both
choices come out as they do for unbiased bits: a flip uses up one word, and a
choice between two repeats until a word is usable. Since `2 ^ 63` is usable,
every choice ends (`unused_choose_le`), and since it stands for the second
alternative, the first one is only ever chosen at the expense of a word
(`unused_choose_lt`).
-/

namespace Innermost

/-- A finite sequence of random words of which some have been used. -/
structure Supply where
  /-- The words. -/
  word : Nat → UInt64
  /-- The number of words. -/
  length : Nat
  /-- The number of words drawn so far, those past the end included. -/
  used : Nat := 0

namespace Supply

/-- The words of a list. -/
def ofList (words : List UInt64) : Supply := ⟨fun i => words[i]?.getD 0, words.length, 0⟩

/-- The words of the key stream of a seed. -/
def ofSeed (seed : UInt64) : Supply :=
  let key := KeyStream.keyOfSeed seed
  ⟨KeyStream.word key, KeyStream.wordCount, 0⟩

/-- The number of words that have not been drawn. -/
def unused (s : Supply) : Nat := s.length - s.used

/-- The word with only its upper bit set, `2 ^ 63`. -/
def upperBit : UInt64 := 0x8000000000000000

/-- The word with only its second bit set, `2 ^ 62`. -/
def secondBit : UInt64 := 0x4000000000000000

/-- The next word. -/
def peek (s : Supply) : UInt64 := if s.used < s.length then s.word s.used else upperBit

/-- The supply after one more draw. -/
def next (s : Supply) : Supply := { s with used := s.used + 1 }

theorem unused_next_le (s : Supply) : s.next.unused ≤ s.unused := by
  simp only [unused, next]
  omega

/-- A word other than `upperBit` is one of the supply's own. -/
theorem unused_next_lt {s : Supply} (h : s.peek ≠ upperBit) : s.next.unused < s.unused := by
  simp only [peek] at h
  simp only [unused, next]
  split at h
  · omega
  · exact absurd rfl h

/-! ### Choices -/

/-- The flip of a coin: heads if the upper bit of a word is clear. -/
def flip (s : Supply) : Bool × Supply := (s.peek < upperBit, s.next)

theorem unused_flip_le (s : Supply) : s.flip.2.unused ≤ s.unused := s.unused_next_le

/-- The choice between the first alternative, `false`, and the second, `true`:
the upper bit of the first word whose second bit is clear. -/
def choose (s : Supply) : Bool × Supply :=
  if s.peek &&& secondBit = 0 then (upperBit ≤ s.peek, s.next)
  else s.next.choose
termination_by s.unused
decreasing_by
  rename_i h
  exact unused_next_lt fun h' => h (by rw [h']; decide)

theorem unused_choose_le (s : Supply) : s.choose.2.unused ≤ s.unused := by
  fun_induction choose s with
  | case1 s h => exact s.unused_next_le
  | case2 s h ih => exact Nat.le_trans ih s.unused_next_le

/-- The first alternative is only chosen at the expense of a word. -/
theorem unused_choose_lt (s : Supply) : s.choose.1 = false → s.choose.2.unused < s.unused := by
  fun_induction choose s with
  | case1 s h =>
      intro hc
      apply unused_next_lt
      intro h'
      simp [h'] at hc
  | case2 s h ih => exact fun hc => Nat.lt_of_lt_of_le (ih hc) s.unused_next_le

end Supply

end Innermost
