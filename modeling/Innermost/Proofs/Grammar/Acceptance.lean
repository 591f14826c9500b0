import Mathlib.Data.List.TakeWhile
import Innermost.Proofs.Grammar.Spelling

/-!
A text is read exactly if it follows the grammar.

* `spelled_of_element`: what a reader has found spells what it answers. An atom
  runs to the next blank or `)`, which `Halts` says of the rest; this is why a
  gap follows every atom that has a right neighbour.
* `element_of_spelledBy`: a reader with enough room finds every expression that
  is spelled where it stands.
* `parse_eq_ok_iff`: both together, for a whole text.
-/

namespace Innermost

/-! ### Gaps -/

lemma blanks_takeWhile (cs : List Char) : Blanks (cs.takeWhile isBlank) := fun _ h =>
  List.mem_takeWhile_imp h

lemma dropWhile_blanks_append {gap : List Char} (h : Blanks gap) (cs : List Char) :
    (gap ++ cs).dropWhile isBlank = cs.dropWhile isBlank :=
  List.dropWhile_append_of_pos h

/-- Whether an atom that stands before `cs` ends there. -/
def Halts (cs : List Char) : Prop := ∀ c ∈ cs.head?, Reading.isAtomChar c = false

lemma halts_dropWhile (cs : List Char) : Halts (cs.dropWhile Reading.isAtomChar) := by
  intro c hc
  have h := List.head?_dropWhile_not Reading.isAtomChar cs
  rw [hc] at h
  exact h

lemma halts_closing (cs : List Char) : Halts (')' :: cs) := by
  intro c hc
  rw [← Option.some.inj hc]
  decide

/-- Blanks end an atom, and so does the end of the text. -/
lemma Blanks.halts {gap : List Char} (h : Blanks gap) : Halts gap := by
  intro c hc
  simp [Reading.isAtomChar, h c (List.mem_of_head? hc)]

/-- Blanks end an atom; without blanks what follows has to. -/
lemma Blanks.halts_append {gap cs : List Char} (h : Blanks gap) (hcs : gap = [] → Halts cs) :
    Halts (gap ++ cs) := by
  cases gap with
  | nil => exact hcs rfl
  | cons x gap =>
      intro c hc
      rw [← Option.some.inj hc]
      simp [Reading.isAtomChar, h x (by simp)]

/-- Behind a gap there is nothing more to skip. -/
@[simp] lemma Cursor.skipBlanks_skipBlanks (c : Cursor) :
    c.skipBlanks.skipBlanks = c.skipBlanks := by
  have h : ∀ hl : 0 < (c.rest.dropWhile isBlank).length, ¬ isBlank (c.rest.dropWhile isBlank)[0] :=
    fun hl => List.dropWhile_get_zero_not isBlank c.rest hl
  rw [Cursor.skipBlanks, Cursor.skipBlanks, Cursor.skipWhile, Cursor.skipWhile,
    List.takeWhile_eq_nil_iff.mpr h, List.dropWhile_eq_self_iff.mpr h]
  rfl

/-- Where an atom stands before the next children of a group, it ends there. -/
lemma Expr.SpelledInOrder.halts {es : List Expr} {cs : List Char}
    (h : Expr.SpelledInOrder true es cs) (r : List Char) : Halts (cs ++ ')' :: r) := by
  cases h with
  | nil hgap => exact hgap.halts_append fun _ => halts_closing r
  | cons hgap hne _ _ =>
      rw [List.append_assoc]
      exact hgap.halts_append fun hnil => absurd hnil (hne rfl)

namespace Reading

open Innermost.Expr (SpelledBy SpelledInOrder depthAll)

/-! ### What is read is spelled -/

/-- What a reader that went from `c` to `c'` and found `e` there has passed: a
gap, then a spelling of `e`, nested no deeper than there was room for. -/
structure Spelled (room : Nat) (c : Cursor) (e : Expr) (c' : Cursor) : Prop where
  depth_le : e.depth ≤ room
  passed : ∃ gap w, Blanks gap ∧ e.SpelledBy w ∧ c.rest = gap ++ (w ++ c'.rest)
  halts : e.isAtom = true → Halts c'.rest

/-- The gap that a reader skips belongs to what it passes. -/
lemma Spelled.of_skipBlanks {room : Nat} {c c' : Cursor} {e : Expr}
    (h : Spelled room c.skipBlanks e c') : Spelled room c e c' := by
  obtain ⟨gap, w, hgap, hw, hrest⟩ := h.passed
  refine ⟨h.depth_le, ⟨c.rest.takeWhile isBlank ++ gap, w, fun x hx => ?_, hw, ?_⟩, h.halts⟩
  · exact (List.mem_append.mp hx).elim (blanks_takeWhile _ x) (hgap x)
  · rw [List.append_assoc, ← hrest, Cursor.skipBlanks, Cursor.rest_skipWhile,
      List.takeWhile_append_dropWhile]

lemma spelled_of_atom {room : Nat} {c c' : Cursor} {e : Expr}
    (hpeek : c.skipBlanks.peek? ≠ some '(') (h : atom c = ⟨.ok e, c'⟩) :
    Spelled room c e c' := by
  simp only [atom] at h
  split_ifs at h with hend hword
  · exact absurd h (by simp [failAt])
  · exact absurd h (by simp [failAt])
  · simp only [mk.injEq, Except.ok.injEq] at h
    obtain ⟨rfl, rfl⟩ := h
    set rest := c.skipBlanks.rest with hrest
    have hne : rest.takeWhile isAtomChar ≠ [] := by simpa using hword
    have hw : IsWord (String.ofList (rest.takeWhile isAtomChar)) := by
      rw [isWord_iff, String.toList_ofList]
      refine ⟨hne, fun x hx => List.mem_takeWhile_imp hx, fun hx => hpeek ?_⟩
      rw [Cursor.peek?, ← hrest, ← List.takeWhile_append_dropWhile (p := isAtomChar) (l := rest),
        List.head?_append, hx, Option.some_or]
    refine Spelled.of_skipBlanks ⟨by simp, ⟨[], rest.takeWhile isAtomChar, blanks_nil, ?_, ?_⟩,
      fun _ => halts_dropWhile _⟩
    · simpa using SpelledBy.atom hw
    · rw [Cursor.rest_skipWhile, ← hrest, List.takeWhile_append_dropWhile, List.nil_append]

/-- A group ends at `)`; before that, a child is read. -/
lemma children_eq_ok {element : Cursor → Reading} {opening : Cursor} {bound : List Char}
    {read : List Expr} {c c' : Cursor} {e : Expr}
    (h : children element opening bound read c = ⟨.ok e, c'⟩) :
    (c.skipBlanks.peek? = some ')' ∧ e = .group read.reverse ∧ c' = c.skipBlanks.next) ∨
      ∃ x bound' e₁ c₁, bound = x :: bound' ∧ element c.skipBlanks = ⟨.ok e₁, c₁⟩ ∧
        children element opening bound' (e₁ :: read) c₁ = ⟨.ok e, c'⟩ := by
  unfold children at h
  simp only at h
  split at h
  · rename_i hpeek
    simp only [mk.injEq, Except.ok.injEq] at h
    exact .inl ⟨hpeek, h.1.symm, h.2.symm⟩
  · rename_i y x bound' hne hpeek
    split at h
    · rename_i e₁ c₁ hel
      exact .inr ⟨x, bound', e₁, c₁, rfl, hel, h⟩
    · simp at h
  · simp at h

/-- Behind a gap stands the character that a reader looks at. -/
lemma rest_eq_of_peek {c : Cursor} {x : Char} (h : c.skipBlanks.peek? = some x) :
    c.rest = c.rest.takeWhile isBlank ++ x :: c.skipBlanks.next.rest := by
  conv_lhs => rw [← List.takeWhile_append_dropWhile (p := isBlank) (l := c.rest)]
  rw [← Cursor.rest_skipWhile, ← Cursor.skipBlanks]
  rcases hc : c.skipBlanks with ⟨passed, _ | ⟨y, rest⟩⟩
  · simp [hc, Cursor.peek?] at h
  · rw [hc] at h
    rw [← Option.some.inj h]
    rfl

/-- The children of a group are spelled in order once `element` reads what is
spelled. -/
lemma spelledInOrder_of_children {element : Cursor → Reading} {room : Nat}
    (hel : ∀ {c e c'}, element c = ⟨.ok e, c'⟩ → Spelled room c e c') {opening : Cursor}
    {bound : List Char} {read : List Expr} {c c' : Cursor} {e : Expr} {afterAtom : Bool}
    (hafter : afterAtom = true → Halts c.rest)
    (h : children element opening bound read c = ⟨.ok e, c'⟩) :
    ∃ es cs, e = .group (read.reverse ++ es) ∧ depthAll es ≤ room ∧
      SpelledInOrder afterAtom es cs ∧ c.rest = cs ++ ')' :: c'.rest := by
  induction bound generalizing read c afterAtom with
  | nil =>
      obtain ⟨hpeek, rfl, rfl⟩ | ⟨_, _, _, _, hb, -, -⟩ := children_eq_ok h
      · exact ⟨[], _, by simp, by simp, .nil (blanks_takeWhile _), rest_eq_of_peek hpeek⟩
      · exact absurd hb (by simp)
  | cons y bound ih =>
      obtain ⟨hpeek, rfl, rfl⟩ | ⟨_, bound', e₁, c₁, hb, hread, hrec⟩ := children_eq_ok h
      · exact ⟨[], _, by simp, by simp, .nil (blanks_takeWhile _), rest_eq_of_peek hpeek⟩
      · obtain ⟨rfl, rfl⟩ := List.cons.inj hb
        have hspelled := (hel hread).of_skipBlanks
        obtain ⟨gap, w, hgap, hw, hrest⟩ := hspelled.passed
        obtain ⟨es, cs, rfl, hdepth, hes, hrest₁⟩ := ih hspelled.halts hrec
        -- an atom has run up to a blank or `)`, and a child begins with neither
        have hne : afterAtom = true → gap ≠ [] := by
          rintro ha rfl
          obtain ⟨x, xs, rfl, hx, hx', -⟩ := hw.head
          have := hafter ha x (by rw [hrest]; rfl)
          simp [isAtomChar, hx, hx'] at this
        refine ⟨e₁ :: es, _, by simp, by simp [hspelled.depth_le, hdepth],
          .cons hgap hne hw hes, ?_⟩
        rw [hrest, hrest₁]
        simp

/-- A reader answers with a group where it sees `(`, and with an atom
elsewhere. -/
lemma element_eq_ok {room : Nat} {c c' : Cursor} {e : Expr} (h : element room c = ⟨.ok e, c'⟩) :
    (∃ room', room = room' + 1 ∧ c.skipBlanks.peek? = some '(' ∧
        children (element room') c.skipBlanks c.skipBlanks.next.rest [] c.skipBlanks.next =
          ⟨.ok e, c'⟩) ∨
      (c.skipBlanks.peek? ≠ some '(' ∧ atom c.skipBlanks = ⟨.ok e, c'⟩) := by
  unfold element at h
  simp only at h
  split at h
  · simp [failAt] at h
  · rename_i hpeek
    split at h
    · simp [failAt] at h
    · rename_i room'
      exact .inl ⟨room', rfl, hpeek, h⟩
  · rename_i x hne hpeek
    exact .inr ⟨fun hx => hne (Option.some.inj (hpeek.symm.trans hx)), h⟩

/-- What a reader has found is spelled where it stood. -/
lemma spelled_of_element {room : Nat} {c c' : Cursor} {e : Expr}
    (h : element room c = ⟨.ok e, c'⟩) : Spelled room c e c' := by
  induction room generalizing c c' e with
  | zero =>
      obtain ⟨_, hroom, -⟩ | ⟨hpeek, hatom⟩ := element_eq_ok h
      · exact absurd hroom (by simp)
      · exact (spelled_of_atom (by simpa using hpeek) hatom).of_skipBlanks
  | succ room ih =>
      obtain ⟨room', hroom, hpeek, hchildren⟩ | ⟨hpeek, hatom⟩ := element_eq_ok h
      · obtain rfl : room = room' := Nat.succ.inj hroom
        obtain ⟨es, cs, rfl, hdepth, hes, hrest⟩ :=
          spelledInOrder_of_children ih (fun h => absurd h Bool.false_ne_true) hchildren
        refine ⟨by simpa using hdepth, ⟨c.rest.takeWhile isBlank, _, blanks_takeWhile _,
          .group hes, ?_⟩, by simp [Expr.isAtom]⟩
        conv_lhs => rw [rest_eq_of_peek hpeek, hrest]
        simp
      · exact (spelled_of_atom (by simpa using hpeek) hatom).of_skipBlanks

/-! ### What is spelled is read -/

lemma rest_skipBlanks_of_gap {c : Cursor} {gap cs : List Char} {x : Char} (hgap : Blanks gap)
    (hx : isBlank x = false) (h : c.rest = gap ++ x :: cs) : c.skipBlanks.rest = x :: cs := by
  rw [Cursor.skipBlanks, Cursor.rest_skipWhile, h, dropWhile_blanks_append hgap,
    List.dropWhile_cons_of_neg (by simp [hx])]

/-- Behind a gap a reader comes to what is spelled there, which begins with no `)`. -/
lemma rest_skipBlanks_of_spelledBy {e : Expr} {w gap r : List Char} {c : Cursor}
    (h : e.SpelledBy w) (hgap : Blanks gap) (hc : c.rest = gap ++ (w ++ r)) :
    c.skipBlanks.rest = w ++ r ∧ ∃ x, c.skipBlanks.peek? = some x ∧ x ≠ ')' := by
  obtain ⟨x, xs, rfl, hx, hx', -⟩ := h.head
  have hrest : c.skipBlanks.rest = x :: xs ++ r := rest_skipBlanks_of_gap hgap hx hc
  exact ⟨hrest, x, by rw [Cursor.peek?, hrest]; rfl, hx'⟩

/-- A reader finds a word where it stands, if it ends there. -/
lemma element_of_word {room : Nat} {c : Cursor} {text : String} {r : List Char}
    (h : IsWord text) (hr : Halts r) (hc : c.skipBlanks.rest = text.toList ++ r) :
    ∃ c', element room c = ⟨.ok (.atom text), c'⟩ ∧ c'.rest = r := by
  obtain ⟨x, xs, hw, hx, hx', hopen⟩ := (SpelledBy.atom h).head
  have hne : x ≠ '(' := by simpa [Expr.isAtom] using hopen
  have hpeek : c.skipBlanks.peek? = some x := by rw [Cursor.peek?, hc, hw]; rfl
  have hend : c.skipBlanks.atEnd = false := by rw [Cursor.atEnd, hc, hw]; rfl
  have hstop : r.takeWhile isAtomChar = [] ∧ r.dropWhile isAtomChar = r := by
    cases r with
    | nil => simp
    | cons y ys =>
        have hy := hr y rfl
        simp [hy]
  have htake : c.skipBlanks.rest.takeWhile isAtomChar = text.toList := by
    rw [hc, List.takeWhile_append_of_pos h.isAtomChar, hstop.1, List.append_nil]
  have hdrop : c.skipBlanks.rest.dropWhile isAtomChar = r := by
    rw [hc, List.dropWhile_append_of_pos h.isAtomChar, hstop.2]
  refine ⟨c.skipBlanks.skipWhile isAtomChar, ?_, hdrop⟩
  have hatom : atom c.skipBlanks =
      ⟨.ok (.atom text), c.skipBlanks.skipWhile isAtomChar⟩ := by
    simp [atom, hend, htake, h.ne_nil]
  unfold element
  simp only [hpeek]
  exact hatom

/-- A reader that has room enters a group. -/
lemma element_of_opening {room : Nat} {c : Cursor} (h : c.skipBlanks.peek? = some '(') :
    element (room + 1) c =
      children (element room) c.skipBlanks c.skipBlanks.next.rest [] c.skipBlanks.next := by
  conv_lhs => unfold element
  simp only [h]

lemma children_of_closing {element : Cursor → Reading} {opening : Cursor} {bound : List Char}
    {read : List Expr} {c : Cursor} (h : c.skipBlanks.peek? = some ')') :
    children element opening bound read c = ⟨.ok (.group read.reverse), c.skipBlanks.next⟩ := by
  unfold children
  simp only [h]

lemma children_of_element {element : Cursor → Reading} {opening : Cursor} {y x : Char}
    {bound : List Char} {read : List Expr} {c c' : Cursor} {e : Expr}
    (hx : c.skipBlanks.peek? = some x) (hne : x ≠ ')')
    (h : element c.skipBlanks = ⟨.ok e, c'⟩) :
    children element opening (y :: bound) read c =
      children element opening bound (e :: read) c' := by
  conv_lhs => unfold children
  simp only [hx, h]

mutual

/-- A reader with enough room finds every expression that is spelled where it
stands; after an atom it has to stop by itself. -/
lemma element_of_spelledBy : ∀ {e : Expr} {w : List Char}, e.SpelledBy w →
    ∀ {room : Nat} {c : Cursor} {gap r : List Char}, e.depth ≤ room → Blanks gap →
      (e.isAtom = true → Halts r) → c.rest = gap ++ (w ++ r) →
      ∃ c', element room c = ⟨.ok e, c'⟩ ∧ c'.rest = r
  | _, _, @SpelledBy.atom text h, room, c, gap, r, _, hgap, hr, hc =>
      element_of_word h (hr rfl) (rest_skipBlanks_of_spelledBy (.atom h) hgap hc).1
  | _, _, @SpelledBy.group es cs h, 0, c, gap, r, hdepth, _, _, _ => by
      exact absurd hdepth (by simp)
  | _, _, @SpelledBy.group es cs h, room + 1, c, gap, r, hdepth, hgap, _, hc => by
      have hrest : c.skipBlanks.rest = '(' :: (cs ++ ')' :: r) :=
        rest_skipBlanks_of_gap hgap (by decide) (by simpa using hc)
      have hpeek : c.skipBlanks.peek? = some '(' := by rw [Cursor.peek?, hrest]; rfl
      have hnext : c.skipBlanks.next.rest = cs ++ ')' :: r := by
        rw [Cursor.next, hrest]
      rw [element_of_opening hpeek]
      exact children_of_spelledInOrder h (by simpa using hdepth) hnext le_rfl

/-- A reader inside a group finds the children that are spelled where it stands,
up to the `)` after them. -/
lemma children_of_spelledInOrder : ∀ {afterAtom : Bool} {es : List Expr} {cs : List Char},
    SpelledInOrder afterAtom es cs →
    ∀ {room : Nat} {opening c : Cursor} {bound r : List Char} {read : List Expr},
      depthAll es ≤ room → c.rest = cs ++ ')' :: r → c.rest.length ≤ bound.length →
      ∃ c', children (element room) opening bound read c =
          ⟨.ok (.group (read.reverse ++ es)), c'⟩ ∧ c'.rest = r
  | _, _, _, .nil hgap, room, opening, c, bound, r, read, _, hc, _ => by
      have hrest : c.skipBlanks.rest = ')' :: r := rest_skipBlanks_of_gap hgap (by decide) hc
      have hpeek : c.skipBlanks.peek? = some ')' := by rw [Cursor.peek?, hrest]; rfl
      refine ⟨c.skipBlanks.next, ?_, by rw [Cursor.next, hrest]⟩
      rw [children_of_closing hpeek, List.append_nil]
  | _, _, _, @SpelledInOrder.cons _ gap w cs e es hgap _ he hes,
      room, opening, c, bound, r, read, hdepth, hc, hbound => by
      rw [List.append_assoc, List.append_assoc] at hc
      obtain ⟨hrest, x, hpeek, hx⟩ := rest_skipBlanks_of_spelledBy he hgap hc
      have hstop : e.isAtom = true → Halts (cs ++ ')' :: r) := fun hatom =>
        (hatom ▸ hes).halts r
      rw [Expr.depthAll_cons, Nat.max_le] at hdepth
      obtain ⟨c₁, hread, hrest₁⟩ :=
        element_of_spelledBy he hdepth.1 blanks_nil hstop (c := c.skipBlanks) hrest
      -- the child has taken at least its first character
      have hlt : c₁.rest.length < c.rest.length := by
        obtain ⟨_, _, rfl, -⟩ := he.head
        rw [hrest₁, hc]
        simp only [List.length_append, List.length_cons]
        omega
      cases bound with
      | nil => exact absurd hbound (by rw [List.length_nil]; omega)
      | cons y bound =>
          rw [List.length_cons] at hbound
          have hrec : ∃ c', children (element room) opening bound (e :: read) c₁ =
              ⟨.ok (.group ((e :: read).reverse ++ es)), c'⟩ ∧ c'.rest = r :=
            children_of_spelledInOrder hes hdepth.2 hrest₁ (by omega)
          obtain ⟨c', hrec, hrest'⟩ := hrec
          refine ⟨c', ?_, hrest'⟩
          rw [children_of_element hpeek hx hread, hrec, List.reverse_cons, List.append_assoc,
            List.singleton_append]

end

/-! ### Whole texts -/

lemma full_eq_ok_iff {c : Cursor} {e : Expr} :
    (full c).result = .ok e ↔ ∃ c', expr c = ⟨.ok e, c'⟩ ∧ Blanks c'.rest := by
  have hend (c' : Cursor) : c'.skipBlanks.atEnd = true ↔ Blanks c'.rest := by
    rw [Cursor.atEnd, List.isEmpty_iff, Cursor.skipBlanks, Cursor.rest_skipWhile,
      List.dropWhile_eq_nil_iff]
    rfl
  rcases hexpr : expr c with ⟨d | e₁, c₁⟩
  · simp [full, hexpr]
  · simp only [full, hexpr]
    split_ifs with h
    · have hblanks := (hend c₁).mp h
      constructor
      · intro he
        exact ⟨c₁, by rw [Except.ok.inj he], hblanks⟩
      · rintro ⟨c', heq, -⟩
        simp only [mk.injEq, Except.ok.injEq] at heq
        rw [heq.1]
    · simp only [false_iff, not_exists, not_and, mk.injEq, Except.ok.injEq]
      rintro c' ⟨-, rfl⟩ hblanks
      exact h ((hend c₁).mpr hblanks)

end Reading

namespace Expr

/-- A text that is read spells what is read. -/
lemma spelledBy_of_parse {text : String} {e : Expr} (h : parse text = .ok e) :
    e.depth ≤ maxDepth ∧ ∃ before w after, Blanks before ∧ e.SpelledBy w ∧ Blanks after ∧
      text.toList = before ++ w ++ after := by
  obtain ⟨c', hread, hafter⟩ := Reading.full_eq_ok_iff.mp h
  have hspelled := Reading.spelled_of_element hread
  obtain ⟨before, w, hbefore, hw, hrest⟩ := hspelled.passed
  refine ⟨hspelled.depth_le, before, w, c'.rest, hbefore, hw, hafter, ?_⟩
  simpa [Cursor.ofText] using hrest

/-- A text that spells an expression is read as that expression. -/
lemma parse_of_spelledBy {text : String} {e : Expr} {before w after : List Char}
    (hdepth : e.depth ≤ maxDepth) (hbefore : Blanks before) (hw : e.SpelledBy w)
    (hafter : Blanks after) (htext : text.toList = before ++ w ++ after) :
    parse text = .ok e := by
  have hhalts : e.isAtom = true → Halts after := fun _ => hafter.halts
  have hrest : (Cursor.ofText text).rest = before ++ (w ++ after) := by
    simpa [Cursor.ofText] using htext
  obtain ⟨c', hread, hrest'⟩ := Reading.element_of_spelledBy hw hdepth hbefore hhalts hrest
  exact Reading.full_eq_ok_iff.mpr ⟨c', hread, hrest' ▸ hafter⟩

/-- What is read from a text is legible. -/
lemma legible_of_parse {text : String} {e : Expr} (h : parse text = .ok e) : e.Legible := by
  obtain ⟨-, _, _, _, -, hw, -, -⟩ := spelledBy_of_parse h
  exact hw.legible

/-- A legible expression is read back from its text. -/
lemma Legible.parse_text {e : Expr} (h : e.Legible) (hdepth : e.depth ≤ maxDepth) :
    parse e.text = .ok e :=
  parse_of_spelledBy hdepth blanks_nil h.spelledBy_text blanks_nil (by simp)

/-- **A text is read exactly if it follows the grammar**, and what is read is the
expression that it spells: the expression nests at most `maxDepth` groups, and
only blanks stand around its spelling. -/
theorem parse_eq_ok_iff (text : String) (e : Expr) :
    parse text = .ok e ↔
      e.depth ≤ maxDepth ∧ ∃ before w after, Blanks before ∧ e.SpelledBy w ∧ Blanks after ∧
        text.toList = before ++ w ++ after := by
  constructor
  · exact spelledBy_of_parse
  · rintro ⟨hdepth, before, w, after, hbefore, hw, hafter, htext⟩
    exact parse_of_spelledBy hdepth hbefore hw hafter htext

end Expr

end Innermost
