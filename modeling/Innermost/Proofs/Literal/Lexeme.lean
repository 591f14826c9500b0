import Innermost.Literal.Evaluation
import Innermost.Reduction
import Innermost.Proofs.Grammar.Acceptance

/-!
The lexemes of a text, told without places.

* `lexemes` cuts characters into lexemes and leaves the blanks out; the tokens of
  a text are its lexemes with their places (`bare_tokens`).
* `lexemes_append`: what is cut off in front of a blank or `)` does not depend on
  what follows. So the lexemes of neighbours are found one by one, as an atom
  ends where a lexeme does.
* `lexemes_number`, `Value.isAtomic_text`: a value is written as one or two
  lexemes, without a blank or a parenthesis.
-/

namespace Innermost

/-! ### Tokens without places -/

/-- A token without its place. -/
structure Lexeme where
  kind : TokenKind
  text : String
  deriving DecidableEq

namespace Lexeme

/-- The lexeme of some characters. -/
def ofChars (cs : List Char) : Lexeme := ⟨.ofLexeme cs, String.ofList cs⟩

/-- The lexeme `(`. -/
def opening : Lexeme := ⟨.opening, "("⟩

/-- The lexeme `)`. -/
def closing : Lexeme := ⟨.closing, ")"⟩

end Lexeme

/-- What a token is apart from its place. -/
def Token.bare (t : Token) : Lexeme := ⟨t.kind, t.lexeme⟩

/-- The lexemes of the characters, without the blanks between them. -/
def lexemes : List Char → List Lexeme
  | [] => []
  | c :: rest =>
      let l := Lexeme.ofChars (c :: lexemeTail c rest)
      let ls := lexemes (rest.drop (lexemeTail c rest).length)
      if l.kind = .blank then ls else l :: ls
termination_by cs => cs.length
decreasing_by
  rw [List.length_drop, List.length_cons]
  omega

@[simp] lemma lexemes_nil : lexemes [] = [] := by rw [lexemes]

lemma bare_scan (start : Nat) (cs : List Char) :
    ((Token.scan start cs).filter fun t => t.kind ≠ .blank).map Token.bare = lexemes cs := by
  fun_induction Token.scan start cs with
  | case1 start => rw [lexemes]; rfl
  | case2 start c rest tail stop ih =>
      rw [lexemes, List.filter_cons]
      have hkind : (Lexeme.ofChars (c :: tail)).kind = .ofLexeme (c :: tail) := rfl
      by_cases hblank : TokenKind.ofLexeme (c :: tail) = .blank
      · simpa [hkind, hblank, tail] using ih
      · simpa [hkind, hblank, tail, Token.bare, Lexeme.ofChars] using ih

/-- The tokens of a text are its lexemes, each with its place. -/
lemma bare_tokens (text : String) : (tokens text).map Token.bare = lexemes text.toList :=
  bare_scan 0 text.toList

/-! ### Kinds of lexemes -/

/-- A lexeme that begins with a blank is one of blanks, and no other is. -/
lemma ofLexeme_eq_blank_iff (c : Char) (tail : List Char) :
    TokenKind.ofLexeme (c :: tail) = .blank ↔ isBlank c = true := by
  constructor
  · intro h
    unfold TokenKind.ofLexeme at h
    split at h
    case h_19 heq =>
      obtain rfl := (List.cons.inj heq).1
      split_ifs at h with hb
      exact hb
    all_goals simp at h
  · intro h
    simp only [isBlank, Bool.or_eq_true, decide_eq_true_eq] at h
    rcases h with ((rfl | rfl) | rfl) | rfl <;> rfl

/-- Only `)` itself closes. -/
lemma eq_of_ofLexeme_eq_closing {cs : List Char} (h : TokenKind.ofLexeme cs = .closing) :
    cs = [')'] := by
  unfold TokenKind.ofLexeme at h
  split at h
  case h_2 => rfl
  case h_19 => split_ifs at h
  all_goals simp at h

lemma isBlank_of_isDigit {c : Char} (h : c.isDigit = true) : isBlank c = false := by
  by_contra hb
  simp only [isBlank, Bool.or_eq_true, decide_eq_true_eq, Bool.not_eq_false] at hb
  rcases hb with ((rfl | rfl) | rfl) | rfl <;> exact absurd h (by decide)

lemma ofLexeme_of_isDigit {c : Char} (h : c.isDigit = true) (tail : List Char) :
    TokenKind.ofLexeme (c :: tail) = .integer := by
  unfold TokenKind.ofLexeme
  split
  case h_19 heq =>
    obtain rfl := (List.cons.inj heq).1
    simp [isBlank_of_isDigit h, h]
  all_goals simp_all

lemma lexemes_cons_of_isBlank {c : Char} (h : isBlank c = true) (rest : List Char) :
    lexemes (c :: rest) = lexemes (rest.drop (lexemeTail c rest).length) := by
  have hkind : (Lexeme.ofChars (c :: lexemeTail c rest)).kind = .blank :=
    (ofLexeme_eq_blank_iff c _).mpr h
  rw [lexemes, if_pos hkind]

lemma lexemes_cons_of_not_isBlank {c : Char} (h : isBlank c = false) (rest : List Char) :
    lexemes (c :: rest) = .ofChars (c :: lexemeTail c rest) ::
      lexemes (rest.drop (lexemeTail c rest).length) := by
  have hkind : (Lexeme.ofChars (c :: lexemeTail c rest)).kind ≠ .blank := fun hblank =>
    absurd ((ofLexeme_eq_blank_iff c _).mp hblank) (by simp [h])
  rw [lexemes, if_neg hkind]

/-! ### Lexemes of neighbours -/

/-- Blanks in front change nothing. -/
lemma lexemes_dropWhile_isBlank (cs : List Char) : lexemes (cs.dropWhile isBlank) = lexemes cs := by
  cases cs with
  | nil => rfl
  | cons c rest =>
      cases hc : isBlank c with
      | false => rw [List.dropWhile_cons_of_neg (by simp [hc])]
      | true =>
          have htail : lexemeTail c rest = rest.takeWhile isBlank := by
            unfold lexemeTail
            rw [if_pos hc]
          have hdrop : rest.drop (rest.takeWhile isBlank).length = rest.dropWhile isBlank :=
            calc rest.drop (rest.takeWhile isBlank).length
                = (rest.takeWhile isBlank ++ rest.dropWhile isBlank).drop
                    (rest.takeWhile isBlank).length := by rw [List.takeWhile_append_dropWhile]
              _ = rest.dropWhile isBlank := List.drop_left
          rw [List.dropWhile_cons_of_pos hc, lexemes_cons_of_isBlank hc, htail, hdrop]

lemma Blanks.lexemes_append {gap : List Char} (h : Blanks gap) (cs : List Char) :
    lexemes (gap ++ cs) = lexemes cs := by
  rw [← lexemes_dropWhile_isBlank, dropWhile_blanks_append h, lexemes_dropWhile_isBlank]

lemma Blanks.lexemes_eq_nil {gap : List Char} (h : Blanks gap) : lexemes gap = [] := by
  have := h.lexemes_append []
  rwa [List.append_nil, lexemes_nil] at this

/-- An atom ends at a blank or at `)`. -/
lemma eq_closing_of_isAtomChar {c : Char} (h : Reading.isAtomChar c = false) :
    isBlank c = true ∨ c = ')' := by
  by_cases hb : isBlank c = true
  · exact .inl hb
  · exact .inr (by simpa [Reading.isAtomChar, hb] using h)

/-- No lexeme but one of blanks goes on with a character that ends an atom. -/
lemma not_goesOn_of_isAtomChar {c : Char} (h : Reading.isAtomChar c = false) :
    c.isDigit = false ∧ isNamePart c = false ∧ ∀ d, isOperatorPair d c = false := by
  rcases eq_closing_of_isAtomChar h with hb | rfl
  · simp only [isBlank, Bool.or_eq_true, decide_eq_true_eq] at hb
    rcases hb with ((rfl | rfl) | rfl) | rfl <;>
      exact ⟨by decide, by decide, fun d => by simp [isOperatorPair]⟩
  · exact ⟨by decide, by decide, fun d => by simp [isOperatorPair]⟩

lemma takeWhile_append_of_head {p : Char → Bool} {ds : List Char}
    (h : ∀ d ∈ ds.head?, p d = false) (cs : List Char) :
    (cs ++ ds).takeWhile p = cs.takeWhile p := by
  induction cs with
  | nil =>
      cases ds with
      | nil => rfl
      | cons d ds => simp [h d rfl]
  | cons c cs ih => simp only [List.cons_append, List.takeWhile_cons, ih]

lemma lexemeTail_append {c : Char} {ds : List Char} (hc : isBlank c = false) (hds : Halts ds)
    (cs : List Char) : lexemeTail c (cs ++ ds) = lexemeTail c cs := by
  have hdigit : ∀ d ∈ ds.head?, d.isDigit = false := fun d hd =>
    (not_goesOn_of_isAtomChar (hds d hd)).1
  have hname : ∀ d ∈ ds.head?, isNamePart d = false := fun d hd =>
    (not_goesOn_of_isAtomChar (hds d hd)).2.1
  have hpair : ∀ d ∈ ds.head?, isOperatorPair c d = false := fun d hd =>
    (not_goesOn_of_isAtomChar (hds d hd)).2.2 c
  unfold lexemeTail
  rw [takeWhile_append_of_head hdigit, takeWhile_append_of_head hname]
  simp only [hc, Bool.false_eq_true, if_false]
  split_ifs
  · rfl
  · rfl
  · cases cs with
    | cons d cs => rfl
    | nil =>
        cases ds with
        | nil => rfl
        | cons d ds => simp [hpair d rfl]

lemma length_lexemeTail_le (c : Char) (rest : List Char) :
    (lexemeTail c rest).length ≤ rest.length := by
  unfold lexemeTail
  split_ifs
  · exact (List.takeWhile_sublist _).length_le
  · exact (List.takeWhile_sublist _).length_le
  · exact (List.takeWhile_sublist _).length_le
  · cases rest with
    | nil => simp
    | cons d rest =>
        simp only
        split_ifs <;> simp

/-- **What stands in front of a blank or `)` has its lexemes for itself.** -/
theorem lexemes_append {ds : List Char} (hds : Halts ds) (cs : List Char) :
    lexemes (cs ++ ds) = lexemes cs ++ lexemes ds := by
  induction hn : cs.length using Nat.strong_induction_on generalizing cs with
  | _ n ih =>
      cases cs with
      | nil => simp
      | cons c rest =>
          rw [List.length_cons] at hn
          cases hc : isBlank c with
          | true =>
              have hgap : Blanks [c] := fun d hd => List.mem_singleton.mp hd ▸ hc
              calc lexemes (c :: rest ++ ds)
                  = lexemes (rest ++ ds) := hgap.lexemes_append (rest ++ ds)
                _ = lexemes rest ++ lexemes ds := ih rest.length (by omega) rest rfl
                _ = lexemes (c :: rest) ++ lexemes ds :=
                    congrArg (· ++ lexemes ds) (hgap.lexemes_append rest).symm
          | false =>
              have hlen := length_lexemeTail_le c rest
              have hlt : (rest.drop (lexemeTail c rest).length).length < n := by
                rw [List.length_drop]
                omega
              rw [List.cons_append, lexemes_cons_of_not_isBlank hc,
                lexemes_cons_of_not_isBlank hc, lexemeTail_append hc hds,
                List.drop_append_of_le_length hlen, ih _ hlt _ rfl, List.cons_append]

/-- A sign that begins no operator of two characters is a lexeme of its own. -/
lemma lexemes_sign {c : Char} (hb : isBlank c = false) (hd : c.isDigit = false)
    (hn : isNameStart c = false) (hpair : ∀ d, isOperatorPair c d = false) (cs : List Char) :
    lexemes (c :: cs) = .ofChars [c] :: lexemes cs := by
  have htail : lexemeTail c cs = [] := by
    unfold lexemeTail
    simp only [hb, hd, hn, Bool.false_eq_true, if_false]
    cases cs with
    | nil => rfl
    | cons d cs => simp [hpair d]
  rw [lexemes_cons_of_not_isBlank hb, htail]
  rfl

lemma lexemes_opening (cs : List Char) : lexemes ('(' :: cs) = .opening :: lexemes cs :=
  lexemes_sign (by decide) (by decide) (by decide) (fun d => by simp [isOperatorPair]) cs

lemma lexemes_closing (cs : List Char) : lexemes (')' :: cs) = .closing :: lexemes cs :=
  lexemes_sign (by decide) (by decide) (by decide) (fun d => by simp [isOperatorPair]) cs

lemma lexemes_minus (cs : List Char) :
    lexemes ('-' :: cs) = ⟨.operator .sub, "-"⟩ :: lexemes cs :=
  lexemes_sign (by decide) (by decide) (by decide) (fun d => by simp [isOperatorPair]) cs

/-- A text without `)` has no lexeme that closes. -/
lemma kind_ne_closing {cs : List Char} (h : ')' ∉ cs) :
    ∀ l ∈ lexemes cs, l.kind ≠ .closing := by
  fun_induction lexemes cs with
  | case1 => simp
  | case2 c rest l ls hblank ih => exact ih fun hmem => h (.tail _ (List.mem_of_mem_drop hmem))
  | case3 c rest l ls hblank ih =>
      intro l' hl'
      rcases List.mem_cons.mp hl' with rfl | hl'
      · intro hkind
        have hcs := eq_of_ofLexeme_eq_closing hkind
        exact h (by simp [(List.cons.inj hcs).1])
      · exact ih (fun hmem => h (.tail _ (List.mem_of_mem_drop hmem))) l' hl'

/-! ### Lexemes of values -/

/-- Digits are one lexeme. -/
lemma lexemes_digits {cs : List Char} (hne : cs ≠ []) (h : ∀ c ∈ cs, c.isDigit = true) :
    lexemes cs = [⟨.integer, String.ofList cs⟩] := by
  cases cs with
  | nil => exact absurd rfl hne
  | cons c rest =>
      have hc : c.isDigit = true := h c (by simp)
      have hb := isBlank_of_isDigit hc
      have hrest : rest.takeWhile Char.isDigit = rest :=
        List.takeWhile_eq_self_iff.mpr fun d hd => h d (by simp [hd])
      have htail : lexemeTail c rest = rest := by
        unfold lexemeTail
        rw [if_neg (by simp [hb]), if_pos hc, hrest]
      rw [lexemes_cons_of_not_isBlank hb, htail, List.drop_length, lexemes_nil, Lexeme.ofChars,
        ofLexeme_of_isDigit hc]

lemma isDigit_repr (n : Nat) : ∀ c ∈ n.repr.toList, c.isDigit = true := by
  intro c hc
  rw [Nat.toList_repr] at hc
  exact Nat.isDigit_of_mem_toDigits (by decide) (by decide) hc

lemma lexemes_repr (n : Nat) : lexemes n.repr.toList = [⟨.integer, n.repr⟩] := by
  have hne : n.repr.toList ≠ [] := by
    rw [Nat.toList_repr]
    exact Nat.toDigits_ne_nil
  rw [lexemes_digits hne (isDigit_repr n), String.ofList_toList]

lemma ofDigitChars_repr (n : Nat) : Nat.ofDigitChars 10 n.repr.toList 0 = n := by
  rw [Nat.toList_repr, Nat.ofDigitChars_ten_toDigits]

/-- A truth value is written as one lexeme. -/
lemma lexemes_boolean (b : Bool) :
    lexemes (Value.boolean b).text.toList = [⟨.truth b, (Value.boolean b).text⟩] := by
  cases b <;> decide +kernel

/-- A negative number is written as two lexemes. -/
lemma lexemes_number (a : Number) :
    lexemes a.text.toList =
      if a.val < 0 then [⟨.operator .sub, "-"⟩, ⟨.integer, a.val.natAbs.repr⟩]
      else [⟨.integer, a.val.natAbs.repr⟩] := by
  rw [Number.text]
  split_ifs
  · rw [String.toList_append, ← lexemes_repr, ← lexemes_minus]
    rfl
  · exact lexemes_repr _

/-- A value can stand in for a group as one atom. -/
lemma Value.isAtomic_text (v : Value) : isAtomic v.text = true := by
  have hall (n : Nat) :
      (n.repr.toList.all fun c => !isBlank c && c ≠ '(' && c ≠ ')') = true := by
    rw [List.all_eq_true]
    intro c hc
    have hdigit := isDigit_repr n c hc
    have hopening : c ≠ '(' := fun h => absurd (h ▸ hdigit) (by decide)
    have hclosing : c ≠ ')' := fun h => absurd (h ▸ hdigit) (by decide)
    simp [isBlank_of_isDigit hdigit, hopening, hclosing]
  cases v with
  | boolean b => cases b <;> decide
  | integer n =>
      rw [Value.text, Number.text]
      split_ifs
      · rw [isAtomic, String.toList_append, List.all_append, hall]
        rfl
      · rw [isAtomic, hall]
        simp

end Innermost
