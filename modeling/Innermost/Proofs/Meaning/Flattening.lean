import Innermost.Proofs.Literal.Substitution
import Innermost.Proofs.Tracing.Rereading

/-!
An expression as the literal language sees it.

* `Expr.lexemes` flattens an expression: its groups become pairs of parentheses.
  Every text that spells an expression has these lexemes, so that its value
  depends on the expression alone (`evaluate_eq_ok_iff_of_parse`,
  `Legible.evaluate_text_iff`).
* `exists_lexemes_replace`: where a node is exchanged, one piece of the lexemes is.
* `Expr.Balanced`: as many parentheses are opened as are closed, as in every
  expression that has a value. An atom closes no parenthesis, so no atom opens one
  either, and the parentheses are those of the groups
  (`Balanced.isPlain_of_all_isAtom`).
-/

namespace Innermost.Expr

/-! ### Lexemes of an expression -/

mutual

/-- The lexemes of an expression. -/
def lexemes : Expr → List Lexeme
  | .atom text => Innermost.lexemes text.toList
  | .group children => bracketed (lexemesAll children)

/-- The lexemes of several expressions, one after another. -/
def lexemesAll : List Expr → List Lexeme
  | [] => []
  | e :: es => lexemes e ++ lexemesAll es

end

@[simp] lemma lexemes_atom (s : String) : (atom s).lexemes = Innermost.lexemes s.toList := by
  rw [lexemes]

@[simp] lemma lexemes_group (es : List Expr) :
    (group es).lexemes = bracketed (lexemesAll es) := by rw [lexemes]

@[simp] lemma lexemesAll_nil : lexemesAll [] = [] := by rw [lexemesAll]

@[simp] lemma lexemesAll_cons (e : Expr) (es : List Expr) :
    lexemesAll (e :: es) = e.lexemes ++ lexemesAll es := by rw [lexemesAll]

/-! ### Spellings -/

mutual

/-- A spelling has the lexemes of what it spells; after an atom it has to end
there. -/
lemma SpelledBy.lexemes_append : ∀ {e : Expr} {w : List Char}, e.SpelledBy w →
    ∀ {cs : List Char}, (e.isAtom = true → Halts cs) →
      Innermost.lexemes (w ++ cs) = e.lexemes ++ Innermost.lexemes cs
  | _, _, @SpelledBy.atom text _, cs, hcs => by
      rw [lexemes_atom, Innermost.lexemes_append (hcs rfl)]
  | _, _, @SpelledBy.group es ds h, cs, _ => by
      have hds := h.lexemes_append cs
      rw [lexemes_closing] at hds
      rw [List.cons_append, List.append_assoc, List.singleton_append, lexemes_opening, hds,
        lexemes_group, bracketed_append]

/-- The spellings of neighbours have their lexemes, one after another. -/
lemma SpelledInOrder.lexemes_append : ∀ {afterAtom : Bool} {es : List Expr} {ds : List Char},
    SpelledInOrder afterAtom es ds → ∀ cs : List Char,
      Innermost.lexemes (ds ++ ')' :: cs) = lexemesAll es ++ Innermost.lexemes (')' :: cs)
  | _, _, _, .nil hgap, cs => by
      rw [hgap.lexemes_append, lexemesAll_nil, List.nil_append]
  | _, _, _, @SpelledInOrder.cons _ gap w ds e es hgap _ he hes, cs => by
      have hhalts : e.isAtom = true → Halts (ds ++ ')' :: cs) := fun hatom =>
        (hatom ▸ hes).halts cs
      rw [List.append_assoc, List.append_assoc, hgap.lexemes_append, he.lexemes_append hhalts,
        hes.lexemes_append cs, lexemesAll_cons, List.append_assoc]

end

/-- Every spelling of an expression has its lexemes. -/
lemma SpelledBy.lexemes_eq {e : Expr} {text : String} {before w after : List Char}
    (h : e.SpelledBy w) (hbefore : Blanks before) (hafter : Blanks after)
    (htext : text.toList = before ++ w ++ after) : Innermost.lexemes text.toList = e.lexemes := by
  rw [htext, List.append_assoc, hbefore.lexemes_append, h.lexemes_append fun _ => hafter.halts,
    hafter.lexemes_eq_nil, List.append_nil]

/-- A text that is read has the lexemes of what it is read as. -/
lemma lexemes_of_parse {text : String} {e : Expr} (h : parse text = .ok e) :
    Innermost.lexemes text.toList = e.lexemes := by
  obtain ⟨-, before, w, after, hbefore, hw, hafter, htext⟩ := spelledBy_of_parse h
  exact hw.lexemes_eq hbefore hafter htext

/-- A text that is read has the value of what it is read as. -/
lemma evaluate_eq_ok_iff_of_parse {text : String} {e : Expr} (h : parse text = .ok e) {v : Value} :
    Innermost.evaluate text = .ok v ↔ Means e.lexemes v := by
  rw [Innermost.evaluate_eq_ok_iff, lexemes_of_parse h]

/-- The text of an expression has its lexemes. -/
lemma Legible.lexemes_text {e : Expr} (h : e.Legible) :
    Innermost.lexemes e.text.toList = e.lexemes :=
  h.spelledBy_text.lexemes_eq blanks_nil blanks_nil (by simp)

/-- The text of an expression has its value. -/
lemma Legible.evaluate_text_iff {e : Expr} (h : e.Legible) {v : Value} :
    Innermost.evaluate e.text = .ok v ↔ Means e.lexemes v := by
  rw [Innermost.evaluate_eq_ok_iff, h.lexemes_text]

/-! ### Exchange of a node -/

lemma exists_lexemesAll_modify {es : List Expr} {i : Nat} {e : Expr} (h : es[i]? = some e) :
    ∃ pre suf, lexemesAll es = pre ++ (e.lexemes ++ suf) ∧
      ∀ g : Expr → Expr, lexemesAll (es.modify i g) = pre ++ ((g e).lexemes ++ suf) := by
  induction es generalizing i with
  | nil => simp at h
  | cons d es ih =>
      cases i with
      | zero =>
          obtain rfl : d = e := by simpa using h
          exact ⟨[], lexemesAll es, by simp, fun g => by simp⟩
      | succ i =>
          obtain ⟨pre, suf, hes, hg⟩ := ih (i := i) (by simpa using h)
          exact ⟨d.lexemes ++ pre, suf, by simp [hes], fun g => by simp [hg g]⟩

/-- Where a node is exchanged, its lexemes are, and nothing around them. -/
lemma exists_lexemes_replace {e old : Expr} {p : Path} (h : e.get? p = some old) :
    ∃ pre suf, e.lexemes = pre ++ (old.lexemes ++ suf) ∧
      ∀ new, (e.replace p new).lexemes = pre ++ (new.lexemes ++ suf) := by
  induction p generalizing e with
  | nil =>
      obtain rfl : e = old := by simpa using h
      exact ⟨[], [], by simp, fun new => by simp⟩
  | cons i p ih =>
      cases e with
      | atom s => simp at h
      | group es =>
          simp only [get?_group_cons, Option.bind_eq_some_iff] at h
          obtain ⟨d, hd, hold⟩ := h
          obtain ⟨pre, suf, hlex, hnew⟩ := ih hold
          obtain ⟨before, after, hes, hmod⟩ := exists_lexemesAll_modify hd
          refine ⟨.opening :: (before ++ pre), suf ++ (after ++ [.closing]), ?_, fun new => ?_⟩
          · simp [hes, hlex, bracketed]
          · simp [hmod, hnew, bracketed]

/-! ### Parentheses -/

/-- An atom closes no parenthesis. -/
lemma closings_of_isWord {s : String} (h : IsWord s) :
    closings (Innermost.lexemes s.toList) = 0 := by
  rw [closings, List.countP_eq_zero]
  intro l hl
  simpa using kind_ne_closing h.notClosing l hl

lemma closings_lexemesAll_le {es : List Expr}
    (h : ∀ e ∈ es, closings e.lexemes ≤ openings e.lexemes) :
    closings (lexemesAll es) ≤ openings (lexemesAll es) := by
  induction es with
  | nil => simp [openings, closings]
  | cons e es ih =>
      have he := h e List.mem_cons_self
      have hes := ih fun d hd => h d (.tail _ hd)
      rw [lexemesAll_cons, closings_append, openings_append]
      omega

/-- An expression opens at least as many parentheses as it closes. -/
lemma Legible.closings_le {e : Expr} (h : e.Legible) :
    closings e.lexemes ≤ openings e.lexemes := by
  induction e using ind with
  | atom s =>
      have := closings_of_isWord (legible_atom_iff.mp h)
      rw [lexemes_atom]
      omega
  | group es ih =>
      have := closings_lexemesAll_le fun e he => ih e he (legible_group_iff.mp h e he)
      rw [lexemes_group, closings_bracketed, openings_bracketed]
      omega

/-- Whether as many parentheses are opened as are closed. -/
def Balanced (e : Expr) : Prop := openings e.lexemes = closings e.lexemes

/-- Where as many parentheses are opened as are closed, this is so in every child,
since no child can make up for another one. -/
lemma Balanced.of_mem {es : List Expr} (h : (group es).Balanced) (hes : ∀ e ∈ es, e.Legible) :
    ∀ e ∈ es, e.Balanced := by
  have hall : openings (lexemesAll es) = closings (lexemesAll es) := by
    have := h
    rw [Balanced, lexemes_group, openings_bracketed, closings_bracketed] at this
    omega
  clear h
  induction es with
  | nil => simp
  | cons e es ih =>
      have he := (hes e List.mem_cons_self).closings_le
      have hes' : ∀ d ∈ es, d.Legible := fun d hd => hes d (.tail _ hd)
      have hle := closings_lexemesAll_le fun d hd => (hes' d hd).closings_le
      rw [lexemesAll_cons, openings_append, closings_append] at hall
      intro d hd
      rcases List.mem_cons.mp hd with rfl | hd
      · rw [Balanced]
        omega
      · exact ih hes' (by omega) d hd

/-- In every node as many parentheses are opened as are closed, if this is so in all. -/
lemma Balanced.of_get? {e n : Expr} {p : Path} (h : e.Balanced) (he : e.Legible)
    (hn : e.get? p = some n) : n.Balanced ∧ n.Legible := by
  refine Expr.of_get? (P := fun e => e.Balanced ∧ e.Legible) (fun h d hd => ?_) ⟨h, he⟩ hn
  have hes := legible_group_iff.mp h.2
  exact ⟨h.1.of_mem hes d hd, hes d hd⟩

/-- Atoms close no parentheses. -/
lemma closings_lexemesAll_of_all_isAtom {es : List Expr} (h : ∀ e ∈ es, e.Legible)
    (hatoms : es.all isAtom = true) : closings (lexemesAll es) = 0 := by
  induction es with
  | nil => simp [closings]
  | cons e es ih =>
      rw [List.all_cons, Bool.and_eq_true] at hatoms
      have hes := ih (fun d hd => h d (.tail _ hd)) hatoms.2
      cases e with
      | group cs => exact absurd hatoms.1 (by simp [isAtom])
      | atom s =>
          have hs := closings_of_isWord (legible_atom_iff.mp (h _ List.mem_cons_self))
          rw [lexemesAll_cons, closings_append, lexemes_atom]
          omega

/-- Inside a group of atoms stand no parentheses, if as many are opened as are
closed. -/
lemma Balanced.isPlain_of_all_isAtom {es : List Expr} (h : (group es).Balanced)
    (hes : ∀ e ∈ es, e.Legible) (hatoms : es.all isAtom = true) :
    ∀ l ∈ lexemesAll es, l.IsPlain := by
  have hclosings := closings_lexemesAll_of_all_isAtom hes hatoms
  have hopenings : openings (lexemesAll es) = 0 := by
    rw [Balanced, lexemes_group, openings_bracketed, closings_bracketed] at h
    omega
  rw [openings, List.countP_eq_zero] at hopenings
  rw [closings, List.countP_eq_zero] at hclosings
  intro l hl
  exact ⟨by simpa using hopenings l hl, by simpa using hclosings l hl⟩

end Innermost.Expr
