import Mathlib.Tactic
import Innermost.Expr.Reading

/-!
The grammar of expressions, told without a reader.

* `IsWord`: the texts that can stand for an atom.
* `Expr.depth`: how many groups of an expression lie inside each other.
* `Expr.SpelledBy`: an atom is spelled as itself, and a group by its children in
  order between parentheses, with blanks around them. Two neighbours may touch
  unless the left one is an atom, which would run on into the right one; this is
  the flag that `Expr.SpelledInOrder` hands from a child to the next.
* `Expr.Legible`: the expressions all of whose atoms are words. These are the
  ones that have a spelling at all (`SpelledBy.legible`, `Legible.spelledBy_text`).
-/

namespace Innermost

/-! ### Words and blanks -/

/-- A run of blanks, possibly an empty one. -/
def Blanks (cs : List Char) : Prop := ∀ c ∈ cs, isBlank c = true

lemma blanks_nil : Blanks [] := fun _ h => absurd h (by simp)

/-- The texts that can stand for an atom: some characters, none of them blank or
`)`, the first of which is not `(`. -/
structure IsWord (text : String) : Prop where
  ne_nil : text.toList ≠ []
  notBlank : ∀ c ∈ text.toList, isBlank c = false
  notClosing : ')' ∉ text.toList
  notOpening : text.toList.head? ≠ some '('

lemma IsWord.isAtomChar {text : String} (h : IsWord text) :
    ∀ c ∈ text.toList, Reading.isAtomChar c = true := by
  intro c hc
  have hb := h.notBlank c hc
  have hne : c ≠ ')' := fun heq => h.notClosing (heq ▸ hc)
  simp [Reading.isAtomChar, hb, hne]

lemma isWord_iff {text : String} :
    IsWord text ↔ text.toList ≠ [] ∧ (∀ c ∈ text.toList, Reading.isAtomChar c = true) ∧
      text.toList.head? ≠ some '(' := by
  constructor
  · exact fun h => ⟨h.ne_nil, h.isAtomChar, h.notOpening⟩
  · rintro ⟨hne, hall, hhead⟩
    refine ⟨hne, fun c hc => ?_, fun hc => ?_, hhead⟩
    · have := hall c hc
      rw [Reading.isAtomChar, Bool.and_eq_true, Bool.not_eq_true'] at this
      exact this.1
    · exact absurd (hall _ hc) (by decide)

namespace Expr

/-! ### Nesting -/

mutual

/-- The number of groups that lie inside each other at the deepest place. -/
def depth : Expr → Nat
  | .atom _ => 0
  | .group children => depthAll children + 1

/-- The depth of the deepest of several expressions. -/
def depthAll : List Expr → Nat
  | [] => 0
  | e :: es => max (depth e) (depthAll es)

end

@[simp] lemma depth_atom (s : String) : (atom s).depth = 0 := by rw [depth]

@[simp] lemma depth_group (es : List Expr) : (group es).depth = depthAll es + 1 := by rw [depth]

@[simp] lemma depthAll_nil : depthAll [] = 0 := by rw [depthAll]

@[simp] lemma depthAll_cons (e : Expr) (es : List Expr) :
    depthAll (e :: es) = max e.depth (depthAll es) := by rw [depthAll]

/-! ### Spellings -/

mutual

/-- The characters by which an expression can be written. -/
inductive SpelledBy : Expr → List Char → Prop where
  | atom {text : String} (h : IsWord text) : SpelledBy (.atom text) text.toList
  | group {children : List Expr} {cs : List Char} (h : SpelledInOrder false children cs) :
      SpelledBy (.group children) ('(' :: (cs ++ [')']))

/-- The characters by which neighbours can be written, the blanks before, between
and after them included. The flag tells whether an atom stands directly before
the first of them, which then needs a blank in front of it. -/
inductive SpelledInOrder : Bool → List Expr → List Char → Prop where
  | nil {afterAtom : Bool} {gap : List Char} (hgap : Blanks gap) :
      SpelledInOrder afterAtom [] gap
  | cons {afterAtom : Bool} {gap w cs : List Char} {e : Expr} {es : List Expr}
      (hgap : Blanks gap) (hne : afterAtom = true → gap ≠ []) (he : SpelledBy e w)
      (hes : SpelledInOrder e.isAtom es cs) :
      SpelledInOrder afterAtom (e :: es) (gap ++ (w ++ cs))

end

/-- A spelling begins with `(` if it is that of a group, and with neither a
parenthesis nor a blank otherwise. -/
lemma SpelledBy.head {e : Expr} {w : List Char} (h : e.SpelledBy w) :
    ∃ c cs, w = c :: cs ∧ isBlank c = false ∧ c ≠ ')' ∧ (c = '(' ↔ e.isAtom = false) := by
  cases h with
  | @atom text h =>
      have hall := h.notBlank
      have hcl := h.notClosing
      have hop := h.notOpening
      cases hw : text.toList with
      | nil => exact absurd hw h.ne_nil
      | cons c cs =>
          rw [hw] at hall hcl hop
          refine ⟨c, cs, rfl, hall c (by simp), fun hc => hcl (by simp [hc]), ?_⟩
          simpa [isAtom] using hop
  | @group es cs h => exact ⟨'(', cs ++ [')'], rfl, by decide, by decide, by simp [isAtom]⟩

/-! ### Legible expressions -/

/-- Expressions all of whose atoms are words. -/
inductive Legible : Expr → Prop where
  | atom {text : String} (h : IsWord text) : Legible (.atom text)
  | group {children : List Expr} (h : ∀ e ∈ children, Legible e) : Legible (.group children)

lemma legible_atom_iff {text : String} : Legible (.atom text) ↔ IsWord text :=
  ⟨fun h => by cases h with | atom h => exact h, .atom⟩

lemma legible_group_iff {es : List Expr} : Legible (.group es) ↔ ∀ e ∈ es, Legible e :=
  ⟨fun h => by cases h with | group h => exact h, .group⟩

mutual

/-- Only legible expressions have a spelling. -/
lemma SpelledBy.legible : ∀ {e : Expr} {w : List Char}, e.SpelledBy w → e.Legible
  | _, _, .atom h => .atom h
  | _, _, .group h => .group h.legible

lemma SpelledInOrder.legible : ∀ {afterAtom : Bool} {es : List Expr} {cs : List Char},
    SpelledInOrder afterAtom es cs → ∀ e ∈ es, Legible e
  | _, _, _, .nil _ => fun _ h => absurd h (by simp)
  | _, _, _, .cons _ _ he hes => fun e h => by
      rcases List.mem_cons.mp h with heq | h
      · exact heq ▸ he.legible
      · exact hes.legible e h

end

/-- Neighbours with one space between each two, and any gap before the first,
are spelled in order. -/
lemma spelledInOrder_textAll {es : List Expr} (h : ∀ e ∈ es, e.SpelledBy e.text.toList)
    {afterAtom : Bool} {gap : List Char} (hgap : Blanks gap) (hne : afterAtom = true → gap ≠ []) :
    SpelledInOrder afterAtom es (gap ++ (textAll es).toList) := by
  induction es generalizing afterAtom gap with
  | nil => simpa [textAll] using SpelledInOrder.nil hgap
  | cons e es ih =>
      have he := h e (by simp)
      have hes : ∀ f ∈ es, f.SpelledBy f.text.toList := fun f hf => h f (by simp [hf])
      cases es with
      | nil => simpa [textAll] using SpelledInOrder.cons hgap hne he (.nil blanks_nil)
      | cons f fs =>
          have hspace : Blanks [' '] := fun c hc => by rw [List.mem_singleton.mp hc]; rfl
          have hrest : SpelledInOrder e.isAtom (f :: fs) ([' '] ++ (textAll (f :: fs)).toList) :=
            ih hes hspace (by simp)
          simpa [textAll] using SpelledInOrder.cons hgap hne he hrest

/-- A legible expression is spelled by its text. -/
lemma Legible.spelledBy_text {e : Expr} (h : e.Legible) : e.SpelledBy e.text.toList := by
  induction e using ind with
  | atom text => exact text_atom text ▸ .atom (legible_atom_iff.mp h)
  | group es ih =>
      have hall : ∀ e ∈ es, e.SpelledBy e.text.toList := fun e he =>
        ih e he (legible_group_iff.mp h e he)
      have hes : SpelledInOrder false es ([] ++ (textAll es).toList) :=
        spelledInOrder_textAll hall blanks_nil (by simp)
      simpa [text] using SpelledBy.group hes

end Expr

end Innermost
