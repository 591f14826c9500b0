import Innermost.Proofs.Literal.Lexeme

/-!
A text is cut into the longest lexemes that the patterns of the tokens allow.

* `TokenKind.Matches`: the pattern of each kind, a set of lexemes told by itself.
* `Munches`: a lexeme stands in front of some characters, no pattern matches more of
  them, and its kind comes before all others that match it, words of letters before
  names and names before symbols. There is one such lexeme at most (`Munches.unique`).
* `Cuts`: characters are cut into such lexemes.
* `cuts_iff`: the lexemes that `Token.scan` finds by a look at the first character are
  the only ones into which a text is cut (`munches_lexemeTail`).
-/

namespace Innermost

/-! ### Patterns -/

namespace TokenKind

/-- The lexemes that the pattern of a kind matches. The pattern of symbols matches every
character that does not end a line. -/
def Matches : TokenKind → List Char → Prop
  | blank, cs => cs ≠ [] ∧ ∀ c ∈ cs, isBlank c = true
  | truth true, cs => cs = ['t', 'r', 'u', 'e']
  | truth false, cs => cs = ['f', 'a', 'l', 's', 'e']
  | integer, cs => cs ≠ [] ∧ ∀ c ∈ cs, c.isDigit = true
  | name, cs => ∃ c tail, cs = c :: tail ∧ isNameStart c = true ∧ ∀ d ∈ tail, isNamePart d = true
  | opening, cs => cs = ['(']
  | closing, cs => cs = [')']
  | bang, cs => cs = ['!']
  | operator op, cs => cs = op.symbol.toList
  | symbol, cs => ∃ c, c ≠ '\n' ∧ cs = [c]

/-- Of two patterns that match a lexeme, the one of the greater priority counts. -/
def priority : TokenKind → Nat
  | symbol => 0
  | name => 1
  | _ => 2

end TokenKind

/-- A lexeme that stands in front of `cs` and is as long as possible, and the kind that
it counts as. -/
structure Munches (cs : List Char) (kind : TokenKind) (lexeme : List Char) : Prop where
  isPrefix : lexeme <+: cs
  isMatch : kind.Matches lexeme
  longest : ∀ {k : TokenKind} {l : List Char}, l <+: cs → k.Matches l → l.length ≤ lexeme.length
  preferred : ∀ {k : TokenKind}, k.Matches lexeme → k ≠ kind → k.priority < kind.priority

/-- The characters are cut into lexemes, blanks included, each as long as possible. -/
inductive Cuts : List Char → List Lexeme → Prop where
  | nil : Cuts [] []
  | cons {kind : TokenKind} {lexeme rest : List Char} {ls : List Lexeme}
      (h : Munches (lexeme ++ rest) kind lexeme) (hrest : Cuts rest ls) :
      Cuts (lexeme ++ rest) (⟨kind, String.ofList lexeme⟩ :: ls)

/-- Characters begin with one longest lexeme. -/
lemma Munches.unique {cs l l' : List Char} {k k' : TokenKind} (h : Munches cs k l)
    (h' : Munches cs k' l') : l = l' ∧ k = k' := by
  have hlen : l.length = l'.length :=
    Nat.le_antisymm (h'.longest h.isPrefix h.isMatch) (h.longest h'.isPrefix h'.isMatch)
  obtain rfl : l = l' :=
    (List.prefix_of_prefix_length_le h.isPrefix h'.isPrefix hlen.le).eq_of_length hlen
  refine ⟨rfl, ?_⟩
  by_contra hne
  have hlt := h.preferred h'.isMatch (Ne.symm hne)
  have hlt' := h'.preferred h.isMatch hne
  omega

/-! ### The kind of a lexeme -/

/-- Letters are neither blanks nor digits. -/
lemma not_isBlank_of_isNameStart {c : Char} (h : isNameStart c = true) :
    isBlank c = false ∧ c.isDigit = false := by
  constructor
  · by_contra hb
    simp only [isBlank, Bool.or_eq_true, decide_eq_true_eq, Bool.not_eq_false] at hb
    rcases hb with ((rfl | rfl) | rfl) | rfl <;> exact absurd h (by decide)
  · by_contra hd
    rw [isNameStart, Bool.or_eq_true, decide_eq_true_eq] at h
    rcases h with h | rfl
    · rw [Bool.not_eq_false] at hd
      have hdigit : ('0'.val ≤ c.val && c.val ≤ '9'.val) = true := hd
      have halpha : (decide ('A'.val ≤ c.val ∧ c.val ≤ 'Z'.val) ||
          ('a'.val ≤ c.val && c.val ≤ 'z'.val)) = true := h
      have hnine : '9'.val.toNat = 57 := rfl
      have hA : 'A'.val.toNat = 65 := rfl
      have ha : 'a'.val.toNat = 97 := rfl
      simp only [Bool.or_eq_true, Bool.and_eq_true, decide_eq_true_eq,
        UInt32.le_iff_toNat_le] at hdigit halpha
      omega
    · exact absurd hd (by decide)

/-- A lexeme that begins like a name is a name, or a word that means a truth value. -/
lemma ofLexeme_of_isNameStart {c : Char} (h : isNameStart c = true) (tail : List Char) :
    TokenKind.ofLexeme (c :: tail) = .name ∨ ∃ b, TokenKind.ofLexeme (c :: tail) = .truth b := by
  obtain ⟨hb, hd⟩ := not_isBlank_of_isNameStart h
  unfold TokenKind.ofLexeme
  split
  case h_17 => exact .inr ⟨true, rfl⟩
  case h_18 => exact .inr ⟨false, rfl⟩
  case h_19 heq =>
    obtain rfl := (List.cons.inj heq).1
    exact .inl (by simp [hb, hd, h])
  all_goals simp_all [isNameStart]

/-- The kind of a lexeme comes before all others whose patterns match it. -/
lemma eq_ofLexeme_or_lt {k : TokenKind} {l : List Char} (h : k.Matches l) :
    k = .ofLexeme l ∨ k.priority < (TokenKind.ofLexeme l).priority := by
  cases k with
  | blank =>
      obtain ⟨hne, hall⟩ := h
      obtain ⟨c, tail, rfl⟩ := List.exists_cons_of_ne_nil hne
      exact .inl ((ofLexeme_eq_blank_iff c tail).mpr (hall c List.mem_cons_self)).symm
  | integer =>
      obtain ⟨hne, hall⟩ := h
      obtain ⟨c, tail, rfl⟩ := List.exists_cons_of_ne_nil hne
      exact .inl (ofLexeme_of_isDigit (hall c List.mem_cons_self) tail).symm
  | name =>
      obtain ⟨c, tail, rfl, hc, -⟩ := h
      rcases ofLexeme_of_isNameStart hc tail with hname | ⟨b, htruth⟩
      · exact .inl hname.symm
      · exact .inr (htruth ▸ Nat.one_lt_two)
  | symbol =>
      obtain ⟨c, -, rfl⟩ := h
      cases hk : TokenKind.ofLexeme [c] with
      | symbol => exact .inl rfl
      | name => exact .inr Nat.zero_lt_one
      | _ => exact .inr Nat.zero_lt_two
  | truth b => cases b <;> exact .inl (h ▸ rfl)
  | operator op => cases op <;> exact .inl (h ▸ rfl)
  | opening | closing | bang => exact .inl (h ▸ rfl)

/-! ### The longest lexeme -/

lemma lexemeTail_of_isBlank {c : Char} (h : isBlank c = true) (rest : List Char) :
    lexemeTail c rest = rest.takeWhile isBlank := by
  simp [lexemeTail, h]

lemma lexemeTail_of_isDigit {c : Char} (h : c.isDigit = true) (rest : List Char) :
    lexemeTail c rest = rest.takeWhile Char.isDigit := by
  simp [lexemeTail, isBlank_of_isDigit h, h]

lemma lexemeTail_of_isNameStart {c : Char} (h : isNameStart c = true) (rest : List Char) :
    lexemeTail c rest = rest.takeWhile isNamePart := by
  obtain ⟨hb, hd⟩ := not_isBlank_of_isNameStart h
  simp [lexemeTail, hb, hd, h]

lemma length_le_takeWhile {p : Char → Bool} {m rest : List Char} (hm : m <+: rest)
    (hall : ∀ d ∈ m, p d = true) : m.length ≤ (rest.takeWhile p).length := by
  obtain ⟨rest, rfl⟩ := hm
  rw [List.takeWhile_append_of_pos hall, List.length_append]
  exact Nat.le_add_right _ _

/-- The sign of an operator is a single character or one of the pairs. -/
lemma BinaryOp.symbol_cases (op : BinaryOp) :
    (∃ c, op.symbol.toList = [c]) ∨
      ∃ c d, op.symbol.toList = [c, d] ∧ isOperatorPair c d = true := by
  cases op with
  | or => exact .inr ⟨'|', '|', rfl, rfl⟩
  | and => exact .inr ⟨'&', '&', rfl, rfl⟩
  | eq => exact .inr ⟨'=', '=', rfl, rfl⟩
  | ne => exact .inr ⟨'!', '=', rfl, rfl⟩
  | le => exact .inr ⟨'<', '=', rfl, rfl⟩
  | ge => exact .inr ⟨'>', '=', rfl, rfl⟩
  | lt | gt | add | sub | mul | div | mod => exact .inl ⟨_, rfl⟩

lemma lexemeTail_of_isOperatorPair {c d : Char} (h : isOperatorPair c d = true)
    (rest : List Char) : lexemeTail c (d :: rest) = [d] := by
  unfold isOperatorPair at h
  split at h
  case h_7 => cases h
  all_goals rfl

/-- The words that mean truth values are among the names. -/
lemma matches_name_of_truth {b : Bool} {cs : List Char} (h : (TokenKind.truth b).Matches cs) :
    TokenKind.name.Matches cs := by
  cases b with
  | true => exact ⟨'t', ['r', 'u', 'e'], h, by decide, List.all_eq_true.mp (by decide)⟩
  | false => exact ⟨'f', ['a', 'l', 's', 'e'], h, by decide, List.all_eq_true.mp (by decide)⟩

lemma length_le_lexemeTail_of_name {c : Char} {m rest : List Char}
    (h : TokenKind.name.Matches (c :: m)) (hm : m <+: rest) :
    m.length ≤ (lexemeTail c rest).length := by
  obtain ⟨c', tail, heq, hstart, hall⟩ := h
  obtain ⟨rfl, rfl⟩ := List.cons.inj heq
  rw [lexemeTail_of_isNameStart hstart]
  exact length_le_takeWhile hm hall

/-- No pattern matches more than the tail that is added to the first character. -/
lemma length_le_lexemeTail {k : TokenKind} {c : Char} {m rest : List Char}
    (h : k.Matches (c :: m)) (hm : m <+: rest) : m.length ≤ (lexemeTail c rest).length := by
  cases k with
  | blank =>
      rw [lexemeTail_of_isBlank (h.2 c List.mem_cons_self)]
      exact length_le_takeWhile hm fun d hd => h.2 d (.tail _ hd)
  | integer =>
      rw [lexemeTail_of_isDigit (h.2 c List.mem_cons_self)]
      exact length_le_takeWhile hm fun d hd => h.2 d (.tail _ hd)
  | name => exact length_le_lexemeTail_of_name h hm
  | truth b => exact length_le_lexemeTail_of_name (matches_name_of_truth h) hm
  | opening | closing | bang =>
      obtain ⟨-, rfl⟩ := List.cons.inj h
      exact Nat.zero_le _
  | symbol =>
      obtain ⟨c', -, heq⟩ := h
      obtain ⟨-, rfl⟩ := List.cons.inj heq
      exact Nat.zero_le _
  | operator op =>
      obtain ⟨c', hsign⟩ | ⟨c', d, hsign, hpair⟩ := op.symbol_cases
      · obtain ⟨-, rfl⟩ := List.cons.inj (h.trans hsign)
        exact Nat.zero_le _
      · obtain ⟨rfl, rfl⟩ := List.cons.inj (h.trans hsign)
        obtain ⟨rest, rfl⟩ := hm
        rw [List.singleton_append, lexemeTail_of_isOperatorPair hpair]

/-- Only the words themselves mean truth values. -/
lemma matches_of_ofLexeme_eq_truth {cs : List Char} {b : Bool}
    (h : TokenKind.ofLexeme cs = .truth b) : (TokenKind.truth b).Matches cs := by
  unfold TokenKind.ofLexeme at h
  split at h
  case h_17 =>
    cases h
    rfl
  case h_18 =>
    cases h
    rfl
  case h_19 => split_ifs at h
  all_goals simp at h

/-- A sign is of some kind that matches it. -/
lemma matches_singleton {c : Char} (hb : isBlank c = false) (hd : c.isDigit = false)
    (hn : isNameStart c = false) : (TokenKind.ofLexeme [c]).Matches [c] := by
  unfold TokenKind.ofLexeme
  split
  case h_19 heq =>
    obtain ⟨rfl, rfl⟩ := List.cons.inj heq
    simp only [hb, hd, hn, Bool.false_eq_true, if_false]
    refine ⟨c, ?_, rfl⟩
    rintro rfl
    exact absurd hb (by decide)
  all_goals simp_all [TokenKind.Matches]
  all_goals rfl

/-- What is added to the first character makes a lexeme of its kind. -/
lemma matches_lexemeTail (c : Char) (rest : List Char) :
    (TokenKind.ofLexeme (c :: lexemeTail c rest)).Matches (c :: lexemeTail c rest) := by
  by_cases hb : isBlank c = true
  · rw [(ofLexeme_eq_blank_iff c _).mpr hb, lexemeTail_of_isBlank hb]
    exact ⟨by simp, List.forall_mem_cons.mpr ⟨hb, fun d hd => List.mem_takeWhile_imp hd⟩⟩
  rw [Bool.not_eq_true] at hb
  by_cases hd : c.isDigit = true
  · rw [ofLexeme_of_isDigit hd, lexemeTail_of_isDigit hd]
    exact ⟨by simp, List.forall_mem_cons.mpr ⟨hd, fun d hd => List.mem_takeWhile_imp hd⟩⟩
  rw [Bool.not_eq_true] at hd
  by_cases hn : isNameStart c = true
  · rcases ofLexeme_of_isNameStart hn (lexemeTail c rest) with hname | ⟨b, htruth⟩
    · rw [hname, lexemeTail_of_isNameStart hn]
      exact ⟨c, _, rfl, hn, fun d hd => List.mem_takeWhile_imp hd⟩
    · rw [htruth]
      exact matches_of_ofLexeme_eq_truth htruth
  rw [Bool.not_eq_true] at hn
  cases rest with
  | nil =>
      have htail : lexemeTail c [] = [] := by simp [lexemeTail, hb, hd, hn]
      rw [htail]
      exact matches_singleton hb hd hn
  | cons d rest =>
      by_cases hpair : isOperatorPair c d = true
      · rw [lexemeTail_of_isOperatorPair hpair]
        unfold isOperatorPair at hpair
        split at hpair
        case h_7 => cases hpair
        all_goals rfl
      · have htail : lexemeTail c (d :: rest) = [] := by simp [lexemeTail, hb, hd, hn, hpair]
        rw [htail]
        exact matches_singleton hb hd hn

lemma lexemeTail_isPrefix (c : Char) (rest : List Char) : lexemeTail c rest <+: rest := by
  unfold lexemeTail
  split_ifs
  · exact List.takeWhile_prefix _
  · exact List.takeWhile_prefix _
  · exact List.takeWhile_prefix _
  · cases rest with
    | nil => exact List.nil_prefix
    | cons d rest =>
        simp only
        split_ifs
        · exact List.prefix_append [d] rest
        · exact List.nil_prefix

/-- No pattern matches the empty lexeme. -/
lemma TokenKind.Matches.ne_nil {k : TokenKind} {l : List Char} (h : k.Matches l) : l ≠ [] := by
  rintro rfl
  cases k with
  | blank | integer => exact h.1 rfl
  | name =>
      obtain ⟨_, _, h, -⟩ := h
      cases h
  | symbol =>
      obtain ⟨_, -, h⟩ := h
      cases h
  | truth b => cases b <;> cases h
  | operator op => cases op <;> cases h
  | opening | closing | bang => cases h

/-- **The first character and what is added to it are the longest lexeme.** -/
theorem munches_lexemeTail (c : Char) (rest : List Char) :
    Munches (c :: rest) (.ofLexeme (c :: lexemeTail c rest)) (c :: lexemeTail c rest) where
  isPrefix := (List.cons_prefix_cons).mpr ⟨rfl, lexemeTail_isPrefix c rest⟩
  isMatch := matches_lexemeTail c rest
  longest {k l} hprefix hmatch := by
    obtain ⟨d, m, rfl⟩ := List.exists_cons_of_ne_nil hmatch.ne_nil
    obtain ⟨rfl, hm⟩ := List.cons_prefix_cons.mp hprefix
    exact Nat.succ_le_succ (length_le_lexemeTail hmatch hm)
  preferred hmatch hne := (eq_ofLexeme_or_lt hmatch).resolve_left hne

/-! ### The cut of a text -/

lemma lexemeTail_append_drop (c : Char) (rest : List Char) :
    c :: lexemeTail c rest ++ rest.drop (lexemeTail c rest).length = c :: rest := by
  rw [List.cons_append, ← List.prefix_append_drop (lexemeTail_isPrefix c rest)]

lemma Cuts.eq_nil {ls : List Lexeme} (h : Cuts [] ls) : ls = [] := by
  generalize hcs : ([] : List Char) = cs at h
  cases h with
  | nil => rfl
  | cons h hrest => exact absurd (List.append_eq_nil_iff.mp hcs.symm).1 h.isMatch.ne_nil

/-- Characters are cut in one way at most. -/
lemma Cuts.unique {cs : List Char} {ls ls' : List Lexeme} (h : Cuts cs ls) (h' : Cuts cs ls') :
    ls = ls' := by
  induction h generalizing ls' with
  | nil => exact h'.eq_nil.symm
  | @cons kind lexeme rest ls h hrest ih =>
      generalize hcs : lexeme ++ rest = cs at h h'
      cases h' with
      | nil => exact absurd (List.append_eq_nil_iff.mp hcs).1 h.isMatch.ne_nil
      | cons h' hrest' =>
          obtain ⟨rfl, rfl⟩ := h.unique h'
          obtain rfl := List.append_cancel_left hcs
          rw [ih hrest']

/-- **A text is cut into the lexemes that the scan finds, and in no other way.** -/
theorem cuts_iff {cs : List Char} {ls : List Lexeme} (start : Nat) :
    Cuts cs ls ↔ ls = (Token.scan start cs).map Token.bare := by
  have hscan : Cuts cs ((Token.scan start cs).map Token.bare) := by
    fun_induction Token.scan start cs with
    | case1 start => exact .nil
    | case2 start c rest tail stop ih =>
        have h := munches_lexemeTail c rest
        rw [← lexemeTail_append_drop c rest] at h ⊢
        exact .cons h ih
  exact ⟨fun h => h.unique hscan, fun h => h ▸ hscan⟩

end Innermost
