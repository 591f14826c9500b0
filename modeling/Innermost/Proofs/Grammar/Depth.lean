import Innermost.Proofs.Grammar.Scan

/-!
Depth is the only reason to refuse a text that spells an expression.

* `findsTooDeep_element`: a reader without enough room for the expression that is spelled
  where it stands comes to a `(` for which it has none. Everything before that is read, so no
  other fault is met (`findsTooDeep_children`).
* `exists_tooDeep_of_spelledBy` says so of whole texts. Together with `parse_of_spelledBy` it
  decides which legible expressions are read back (`Legible.exists_parse_text_iff`).
-/

namespace Innermost

namespace Reading

open Innermost.Expr (SpelledBy SpelledInOrder depthAll)

/-- The reader stops at a group that is nested too deeply, and says so. -/
def FindsTooDeep (reading : Reading) : Prop :=
  ∃ place, reading.result = .error ⟨.read .tooDeep, [place]⟩

mutual

/-- A reader without enough room for what is spelled where it stands runs out of room. -/
lemma findsTooDeep_element : ∀ {e : Expr} {w : List Char}, e.SpelledBy w →
    ∀ {room : Nat} {c : Cursor} {gap r : List Char}, room < e.depth → Blanks gap →
      c.rest = gap ++ (w ++ r) → (element room c).FindsTooDeep
  | _, _, .atom _, _, _, _, _, hdepth, _, _ => absurd hdepth (by simp)
  | _, _, @SpelledBy.group es cs h, room, c, gap, r, hdepth, hgap, hc => by
      have hrest : c.skipBlanks.rest = '(' :: (cs ++ ')' :: r) :=
        rest_skipBlanks_of_gap hgap (by decide) (by simpa using hc)
      have hpeek : c.skipBlanks.peek? = some '(' := by rw [Cursor.peek?, hrest]; rfl
      have hnext : c.skipBlanks.next.rest = cs ++ ')' :: r := by
        rw [Cursor.next, hrest]
      cases room with
      | zero =>
          rw [element_of_opening_zero hpeek]
          exact ⟨_, rfl⟩
      | succ room =>
          rw [element_of_opening hpeek]
          exact findsTooDeep_children h (by simpa using hdepth) hnext le_rfl

/-- The first child that is too deep is the first at which a reader inside a group fails. -/
lemma findsTooDeep_children : ∀ {afterAtom : Bool} {es : List Expr} {cs : List Char},
    SpelledInOrder afterAtom es cs →
    ∀ {room : Nat} {opening c : Cursor} {bound r : List Char} {read : List Expr},
      room < depthAll es → c.rest = cs ++ ')' :: r → c.rest.length ≤ bound.length →
      (children (element room) opening bound read c).FindsTooDeep
  | _, _, _, .nil _, _, _, _, _, _, _, hdepth, _, _ => absurd hdepth (by simp)
  | _, _, _, @SpelledInOrder.cons _ gap w cs e es hgap _ he hes,
      room, opening, c, bound, r, read, hdepth, hc, hbound => by
      rw [List.append_assoc, List.append_assoc] at hc
      obtain ⟨hrest, x, hpeek, hx⟩ := rest_skipBlanks_of_spelledBy he hgap hc
      cases bound with
      | nil => exact absurd hbound (by simp [hc])
      | cons y bound =>
          by_cases hdeep : room < e.depth
          · have hchild := findsTooDeep_element he hdeep blanks_nil (c := c.skipBlanks) hrest
            obtain ⟨place, hplace⟩ := hchild
            rcases hread : element room c.skipBlanks with ⟨result, c₁⟩
            rw [hread] at hplace
            subst hplace
            rw [children_of_element_error hpeek hx hread]
            exact ⟨place, rfl⟩
          · have hstop : e.isAtom = true → Halts (cs ++ ')' :: r) := fun hatom =>
              (hatom ▸ hes).halts r
            have hroom := Nat.le_of_not_lt hdeep
            obtain ⟨c₁, hread, hrest₁⟩ :=
              element_of_spelledBy he hroom blanks_nil hstop (c := c.skipBlanks) hrest
            have hlt : c₁.rest.length < c.skipBlanks.rest.length := rest_length_lt_of_element hread
            have hle : c.skipBlanks.rest.length ≤ c.rest.length :=
              (List.dropWhile_sublist isBlank).length_le
            rw [Expr.depthAll_cons, lt_max_iff] at hdepth
            rw [List.length_cons] at hbound
            rw [children_of_element hpeek hx hread]
            exact findsTooDeep_children hes (hdepth.resolve_left hdeep) hrest₁ (by omega)

end

/-- What stops the reader of an expression stops that of a whole text. -/
lemma FindsTooDeep.full {c : Cursor} (h : (expr c).FindsTooDeep) : (full c).FindsTooDeep := by
  obtain ⟨place, hplace⟩ := h
  rcases hread : expr c with ⟨result, c'⟩
  rw [hread] at hplace
  subst hplace
  exact ⟨place, by simp only [Reading.full, hread]⟩

end Reading

namespace Expr

/-- A text that spells an expression which is nested too deeply is refused for that. -/
lemma exists_tooDeep_of_spelledBy {text : String} {e : Expr} {before w after : List Char}
    (hdepth : maxDepth < e.depth) (hbefore : Blanks before) (hw : e.SpelledBy w)
    (htext : text.toList = before ++ w ++ after) :
    ∃ place, parse text = .error ⟨.read .tooDeep, [place]⟩ := by
  have hrest : (Cursor.ofText text).rest = before ++ (w ++ after) := by
    simpa [Cursor.ofText] using htext
  exact (Reading.findsTooDeep_element hw hdepth hbefore hrest).full

lemma Legible.exists_tooDeep {e : Expr} (h : e.Legible) (hdepth : maxDepth < e.depth) :
    ∃ place, parse e.text = .error ⟨.read .tooDeep, [place]⟩ := by
  have htext : e.text.toList = [] ++ e.text.toList ++ [] := by simp
  exact exists_tooDeep_of_spelledBy hdepth blanks_nil h.spelledBy_text htext

/-- A legible expression is read back from its text unless it is nested too deeply. -/
lemma Legible.exists_parse_text_iff {e : Expr} (h : e.Legible) :
    (∃ e', parse e.text = .ok e') ↔ e.depth ≤ maxDepth := by
  refine ⟨fun ⟨e', he'⟩ => ?_, fun hdepth => ⟨e, h.parse_text hdepth⟩⟩
  by_contra hdepth
  obtain ⟨place, herror⟩ := h.exists_tooDeep (Nat.lt_of_not_le hdepth)
  rw [he'] at herror
  cases herror

end Expr

end Innermost
