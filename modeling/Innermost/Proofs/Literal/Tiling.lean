import Innermost.Proofs.Literal.Regions
import Innermost.Proofs.Literal.Slices

/-!
A text is its tokens with blanks between them.

* `Munches.truth_iff`, `Munches.not_isNamePart`, `Munches.eq_symbol`: what the longest match
  means for the words that compete with names, and for the characters that no other
  pattern takes.
* `exists_mem_scan_at`: no character is left out of the lexemes that a text is cut into. So
  the tokens of a text lie one behind another, and outside of them are blanks (`Tiles`,
  `tiles_tokens`).
* `Spaced`: texts in which some lexemes stand one behind another with blanks between them.
  Each lexeme by itself is found again as it was (`Munches.lexemes_eq`), hence all of them
  are, whatever the blanks are (`Spaced.lexemes_eq`).
* `tokens_lossless`: all of this of the tokens of a text.
-/

namespace Innermost

/-! ### Kinds of longest lexemes -/

lemma TokenKind.priority_le (k : TokenKind) : k.priority ≤ 2 := by
  cases k <;> simp [priority]

lemma TokenKind.matches_truth_iff {b : Bool} {cs : List Char} :
    (truth b).Matches cs ↔ cs = (Value.boolean b).text.toList := by
  cases b <;> rfl

namespace Munches

variable {cs lexeme rest : List Char} {kind : TokenKind}

/-- A lexeme is a truth value just if it is the word for it. -/
lemma truth_iff (h : Munches cs kind lexeme) (b : Bool) :
    kind = .truth b ↔ lexeme = (Value.boolean b).text.toList := by
  rw [← TokenKind.matches_truth_iff]
  constructor
  · intro hkind
    exact hkind ▸ h.isMatch
  · intro hmatch
    by_contra hne
    have hlt : 2 < kind.priority := h.preferred hmatch (Ne.symm hne)
    have hle := kind.priority_le
    omega

/-- A word goes on as far as it can. -/
lemma not_isNamePart (h : Munches (lexeme ++ rest) kind lexeme)
    (hword : kind = .name ∨ ∃ b, kind = .truth b) : ∀ c ∈ rest.head?, isNamePart c = false := by
  have hname : TokenKind.name.Matches lexeme := by
    have hmatch := h.isMatch
    rcases hword with rfl | ⟨b, rfl⟩
    · exact hmatch
    · exact matches_name_of_truth hmatch
  intro c hc
  by_contra hpart
  rw [Bool.not_eq_false] at hpart
  obtain ⟨ds, rfl⟩ := List.head?_eq_some_iff.mp hc
  obtain ⟨d, tail, rfl, hstart, htail⟩ := hname
  have hlonger : TokenKind.name.Matches (d :: tail ++ [c]) := by
    refine ⟨d, tail ++ [c], rfl, hstart, fun e he => ?_⟩
    rcases List.mem_append.mp he with he | he
    · exact htail e he
    · exact List.mem_singleton.mp he ▸ hpart
  have hlen := h.longest ⟨ds, by simp⟩ hlonger
  rw [List.length_append, List.length_singleton] at hlen
  omega

/-- Where a character counts as a symbol, no other pattern matches anything. -/
lemma eq_symbol (h : Munches cs .symbol lexeme) {k : TokenKind} {l : List Char} (hl : l <+: cs)
    (hmatch : k.Matches l) : k = .symbol := by
  obtain ⟨c, -, rfl⟩ := h.isMatch
  have hlen : l.length = [c].length :=
    Nat.le_antisymm (h.longest hl hmatch) (List.length_pos_iff.mpr hmatch.ne_nil)
  obtain rfl : l = [c] := (List.prefix_of_prefix_length_le hl h.isPrefix hlen.le).eq_of_length hlen
  by_contra hne
  exact Nat.not_lt_zero _ (h.preferred hmatch hne)

/-- A longest lexeme is found again in the text that it is by itself. -/
lemma lexemes_eq (h : Munches (lexeme ++ rest) kind lexeme) (hkind : kind ≠ .blank) :
    lexemes lexeme = [⟨kind, String.ofList lexeme⟩] := by
  have halone : Munches (lexeme ++ []) kind lexeme :=
    h.of_isPrefix (List.prefix_append lexeme []) (by simp)
  have hcut := (cuts_iff 0).mp (Cuts.cons halone .nil)
  rw [List.append_nil] at hcut
  calc lexemes lexeme
      = ((Token.scan 0 lexeme).map Token.bare).filter fun l => l.kind ≠ .blank := by
        rw [← bare_scan 0, List.filter_map]
        rfl
    _ = [⟨kind, String.ofList lexeme⟩] := by
        rw [← hcut]
        simp [hkind]

end Munches

/-! ### Tokens and blanks side by side -/

/-- The tokens lie one behind another in the text, and all that is outside of them is
blank. -/
structure Tiles (text : String) (ts : List Token) : Prop where
  /-- The region of a token begins and ends between two characters. -/
  liesIn : ∀ t ∈ ts, t.span.LiesIn text
  /-- It is not empty. -/
  start_lt_stop : ∀ t ∈ ts, t.span.start < t.span.stop
  /-- It holds the lexeme. -/
  slice : ∀ t ∈ ts, t.span.slice text = t.lexeme
  /-- The tokens come in their order, and no two of them share a byte. -/
  ordered : ts.Pairwise fun t u => t.span.stop ≤ u.span.start
  /-- A character in the region of no token is blank. -/
  isBlank_outside : ∀ {place : Nat} {c : Char} {cs : List Char}, ContinuesAt text place (c :: cs) →
    (∀ t ∈ ts, place < t.span.start ∨ t.span.stop ≤ place) → isBlank c = true

lemma Row.pairwise {text : String} {low : Nat} {ts : List Token} (h : Row text low ts) :
    ts.Pairwise fun t u => t.span.stop ≤ u.span.start := by
  induction ts generalizing low with
  | nil => exact .nil
  | cons t ts ih =>
      cases h with
      | cons hlow ht hts =>
          refine List.pairwise_cons.mpr ⟨fun u hu => ?_, ih hts⟩
          obtain ⟨us, vs, rfl⟩ := List.append_of_mem hu
          exact hts.stop_le.1

/-- Each character stands in one of the lexemes. -/
lemma exists_mem_scan_at (start : Nat) (before : List Char) (c : Char) (after : List Char) :
    ∃ t ∈ Token.scan start (before ++ c :: after), c ∈ t.lexeme.toList ∧
      t.span.start ≤ start + byteLength before ∧ start + byteLength before < t.span.stop := by
  generalize hcs : before ++ c :: after = cs
  fun_induction Token.scan start cs generalizing before with
  | case1 start => simp at hcs
  | case2 start d rest tail stop ih =>
      rw [← lexemeTail_append_drop d rest] at hcs
      -- the character stands behind the first lexeme, or in it
      rcases List.append_eq_append_iff.mp hcs.symm with ⟨as, rfl, hrest⟩ | ⟨bs, hlexeme, hrest⟩
      · obtain ⟨t, ht, hmem, hle, hlt⟩ := ih as hrest.symm
        rw [byteLength_append, ← Nat.add_assoc]
        exact ⟨t, .tail _ ht, hmem, hle, hlt⟩
      · cases bs with
        | nil =>
            obtain ⟨t, ht, hmem, hle, hlt⟩ := ih [] hrest
            rw [List.append_nil] at hlexeme
            exact ⟨t, .tail _ ht, hmem, hlexeme ▸ hle, hlexeme ▸ hlt⟩
        | cons b bs =>
            obtain ⟨rfl, -⟩ := List.cons.inj hrest
            refine ⟨_, .head _, ?_, Nat.le_add_right _ _, ?_⟩
            · rw [String.toList_ofList, hlexeme]
              simp
            · have hpos := byteLength_pos c bs
              show start + byteLength before < start + byteLength (d :: lexemeTail d rest)
              rw [hlexeme, byteLength_append]
              omega

section Tokens

variable {text : String}

/-- A token is not empty. -/
lemma Token.StandsBefore.start_lt_stop {rest : List Char} {t : Token}
    (h : t.StandsBefore text rest) : t.span.start < t.span.stop := by
  obtain ⟨c, cs, hlexeme⟩ := List.exists_cons_of_ne_nil h.munches.isMatch.ne_nil
  have hpos := byteLength_pos c cs
  rw [h.stop_eq, hlexeme]
  omega

/-- A character that is in no token is blank. -/
lemma isBlank_of_outside {place : Nat} {c : Char} {cs : List Char}
    (h : ContinuesAt text place (c :: cs))
    (hout : ∀ t ∈ tokens text, place < t.span.start ∨ t.span.stop ≤ place) :
    isBlank c = true := by
  obtain ⟨before, htext, rfl⟩ := h
  obtain ⟨t, ht, hmem, hle, hlt⟩ := exists_mem_scan_at 0 before c cs
  rw [← htext] at ht
  rw [Nat.zero_add] at hle hlt
  by_cases hblank : t.kind = .blank
  · obtain ⟨rest, hstands⟩ := exists_standsBefore_of_mem_scan (continuesAt_start text) ht
    have hmatch := hstands.munches.isMatch
    rw [hblank] at hmatch
    exact hmatch.2 c hmem
  · rcases hout t (List.mem_filter.mpr ⟨ht, by simpa using hblank⟩) with hlt' | hle' <;> omega

/-- **The tokens of a text, with blanks between them, are all of it.** -/
theorem tiles_tokens (text : String) : Tiles text (tokens text) where
  liesIn t ht := by
    obtain ⟨rest, h⟩ := exists_standsBefore ht
    rw [h.span_eq]
    exact h.continuesAt.liesIn
  start_lt_stop t ht := by
    obtain ⟨rest, h⟩ := exists_standsBefore ht
    exact h.start_lt_stop
  slice t ht := (slice_of_mem_tokens ht).1
  ordered := (row_tokens text).pairwise
  isBlank_outside h hout := isBlank_of_outside h hout

end Tokens

/-! ### Lexemes with other blanks -/

/-- The lexemes stand one behind another, with blanks between any two of them. There may be
blanks behind the last one. -/
inductive Spaced : List String → List Char → Prop where
  | nil : Spaced [] []
  | cons {lexeme : String} {ls : List String} {gap cs : List Char} (hgap : Blanks gap)
      (hne : ls ≠ [] → gap ≠ []) (hrest : Spaced ls cs) :
      Spaced (lexeme :: ls) (lexeme.toList ++ (gap ++ cs))

lemma Spaced.eq_nil {cs : List Char} (h : Spaced [] cs) : cs = [] := by
  cases h
  rfl

/-- Lexemes that are found by themselves are found one behind another. -/
lemma Spaced.lexemes_eq {ts : List Token} {cs : List Char}
    (halone : ∀ t ∈ ts, lexemes t.lexeme.toList = [t.bare])
    (h : Spaced (ts.map Token.lexeme) cs) : lexemes cs = ts.map Token.bare := by
  induction ts generalizing cs with
  | nil => rw [h.eq_nil, lexemes_nil, List.map_nil]
  | cons t ts ih =>
      obtain ⟨ht, hts⟩ := List.forall_mem_cons.mp halone
      cases h with
      | @cons _ _ gap cs hgap hne hrest =>
          have hhalts : Halts (gap ++ cs) := hgap.halts_append fun hnil => by
            have hlast : ts.map Token.lexeme = [] := by
              by_contra h
              exact hne h hnil
            rw [hlast] at hrest
            rw [hrest.eq_nil]
            exact blanks_nil.halts
          calc lexemes (t.lexeme.toList ++ (gap ++ cs))
              = lexemes t.lexeme.toList ++ lexemes (gap ++ cs) := lexemes_append hhalts _
            _ = [t.bare] ++ ts.map Token.bare := by rw [ht, hgap.lexemes_append, ih hts hrest]
            _ = (t :: ts).map Token.bare := by simp

lemma lexemes_of_mem_tokens {text : String} {t : Token} (ht : t ∈ tokens text) :
    lexemes t.lexeme.toList = [t.bare] := by
  obtain ⟨rest, h⟩ := exists_standsBefore ht
  have hkind : t.kind ≠ .blank := by simpa using (List.mem_filter.mp ht).2
  rw [h.munches.lexemes_eq hkind, String.ofList_toList]
  rfl

/-! ### Nothing is lost -/

/-- **The tokens lose nothing of a text, and are found again.** They tile the text. Each is
the longest match of any pattern at its first character: `true` and `false` are truth values
only as whole words, behind which no character of a name follows, and a symbol is a character
at which no other pattern matches. And if their lexemes are written with other blanks between
them, the same lexemes of the same kinds are found. -/
theorem tokens_lossless (text : String) :
    Tiles text (tokens text) ∧
      (∀ t ∈ tokens text, ∃ rest, t.StandsBefore text rest ∧
        (∀ b, t.kind = .truth b ↔ t.lexeme = (Value.boolean b).text) ∧
        (t.kind = .name ∨ (∃ b, t.kind = .truth b) → ∀ c ∈ rest.head?, isNamePart c = false) ∧
        (t.kind = .symbol → (∃ c, t.lexeme.toList = [c]) ∧
          ∀ (k : TokenKind) (l : List Char),
            l <+: t.lexeme.toList ++ rest → k.Matches l → k = .symbol)) ∧
      ∀ spaced : String, Spaced ((tokens text).map Token.lexeme) spaced.toList →
        (tokens spaced).map Token.bare = (tokens text).map Token.bare := by
  refine ⟨tiles_tokens text, fun t ht => ?_, fun spaced hspaced => ?_⟩
  · obtain ⟨rest, h⟩ := exists_standsBefore ht
    refine ⟨rest, h, fun b => ?_, h.munches.not_isNamePart, fun hsymbol => ?_⟩
    · rw [h.munches.truth_iff, String.toList_inj]
    · have hmunches := h.munches
      rw [hsymbol] at hmunches
      obtain ⟨c, -, hlexeme⟩ := hmunches.isMatch
      exact ⟨⟨c, hlexeme⟩, fun k l hl hmatch => hmunches.eq_symbol hl hmatch⟩
  · rw [bare_tokens]
    exact hspaced.lexemes_eq fun t ht => lexemes_of_mem_tokens ht

/-- Lexemes without blanks between them: a truth value behind digits, half an operator and a
character of two bytes. -/
theorem tokens_lossless_respaced :
    let text := "1true!x &é"
    let word : Token := ⟨.truth true, ⟨1, 5⟩, "true"⟩
    let accented : Token := ⟨.symbol, ⟨9, 11⟩, "é"⟩
    ((tokens text).map Token.lexeme = ["1", "true", "!", "x", "&", "é"] ∧
      (tokens "1 true\t!\r\nx &\n\né ").map Token.bare = (tokens text).map Token.bare) ∧
    (word ∈ tokens text ∧ word.span.slice text = "true" ∧
      ∃ rest, word.StandsBefore text rest ∧ ∀ c ∈ rest.head?, isNamePart c = false) ∧
    (accented ∈ tokens text ∧ accented.span.LiesIn text ∧ accented.span.slice text = "é") := by
  intro text word accented
  obtain ⟨htiles, hstands, hrespaced⟩ := tokens_lossless text
  have hlexemes : (tokens text).map Token.lexeme = ["1", "true", "!", "x", "&", "é"] := by
    decide +kernel
  have hword : word ∈ tokens text := by decide +kernel
  have haccented : accented ∈ tokens text := by decide +kernel
  have hblanks (gap : List Char) (h : gap.all isBlank = true) : Blanks gap :=
    List.all_eq_true.mp h
  obtain ⟨rest, hbefore, -, hwhole, -⟩ := hstands word hword
  refine ⟨⟨hlexemes, hrespaced _ ?_⟩,
    ⟨hword, htiles.slice word hword, rest, hbefore, hwhole (.inr ⟨true, rfl⟩)⟩,
    haccented, htiles.liesIn accented haccented, htiles.slice accented haccented⟩
  rw [hlexemes]
  exact .cons (hblanks [' '] rfl) (by simp) <| .cons (hblanks ['\t'] rfl) (by simp) <|
    .cons (hblanks ['\r', '\n'] rfl) (by simp) <| .cons (hblanks [' '] rfl) (by simp) <|
    .cons (hblanks ['\n', '\n'] rfl) (by simp) <| .cons (hblanks [' '] rfl) (by simp) .nil

end Innermost
