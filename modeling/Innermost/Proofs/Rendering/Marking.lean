import Mathlib.Tactic
import Innermost.Rendering

/-!
Expressions written with one node shown differently.

* `exists_textWith_eq`: what is written before a node and after it does not depend
  on what is written in its place.
* `textWith_text`: a node that is shown as another expression is exchanged.
* `render_plain`: a target that is neither marked nor collapsed is not shown
  differently at all.
-/

namespace Innermost

/-- One of several texts that are joined stands between what comes before it and
what comes after it. -/
lemma exists_intercalate_set (sep : String) {texts : List String} {i : Nat}
    (hi : i < texts.length) :
    ∃ pre suf, ∀ piece, sep.intercalate (texts.set i piece) = pre ++ piece ++ suf := by
  induction texts generalizing i with
  | nil => simp at hi
  | cons text texts ih =>
      cases i with
      | zero =>
          cases texts with
          | nil => exact ⟨"", "", fun piece => by simp⟩
          | cons next texts =>
              refine ⟨"", sep ++ sep.intercalate (next :: texts), fun piece => ?_⟩
              simp [String.append_assoc]
      | succ i =>
          have hi' : i < texts.length := by simpa using hi
          obtain ⟨pre, suf, h⟩ := ih hi'
          refine ⟨text ++ sep ++ pre, suf, fun piece => ?_⟩
          have hne : texts.set i piece ≠ [] := by
            rw [ne_eq, List.set_eq_nil_iff]
            exact List.ne_nil_of_length_pos (Nat.zero_lt_of_lt hi')
          rw [List.set_cons_succ, String.intercalate_cons_of_ne_nil hne, h]
          simp [String.append_assoc]

namespace Expr

/-- A group is written as its children are, except that one of them is written
differently. -/
lemma textWith_group {es : List Expr} {i : Nat} {d : Expr} (hd : es[i]? = some d)
    (piece : String) (p : Path) :
    (group es).textWith piece (i :: p) =
      "(" ++ " ".intercalate ((es.map text).set i (d.textWith piece p)) ++ ")" := by
  rw [textWith]
  congr 3
  apply List.ext_getElem?
  intro j
  rw [List.getElem?_mapIdx, List.getElem?_set, List.getElem?_map, List.length_map]
  obtain ⟨hi, rfl⟩ := List.getElem?_eq_some_iff.mp hd
  by_cases hij : i = j
  · subst hij
    simp [hi]
  · simp [hij, Ne.symm hij]

/-- What is written before a node and after it does not depend on what is written
in its place. -/
lemma exists_textWith_eq {e node : Expr} {p : Path} (h : e.get? p = some node) :
    ∃ pre suf, ∀ piece, e.textWith piece p = pre ++ piece ++ suf := by
  induction p generalizing e with
  | nil => exact ⟨"", "", fun piece => by rw [textWith]; simp⟩
  | cons i p ih =>
      cases e with
      | atom s => simp at h
      | group es =>
          rw [get?_group_cons, Option.bind_eq_some_iff] at h
          obtain ⟨d, hd, hnode⟩ := h
          obtain ⟨pre, suf, hchild⟩ := ih hnode
          have hi : i < (es.map text).length := by
            rw [List.length_map]
            exact (List.getElem?_eq_some_iff.mp hd).1
          obtain ⟨pre', suf', hgroup⟩ := exists_intercalate_set " " hi
          refine ⟨"(" ++ pre' ++ pre, suf ++ suf' ++ ")", fun piece => ?_⟩
          rw [textWith_group hd, hgroup, hchild]
          simp [String.append_assoc]

/-- With a text of another node in its place, a node is exchanged. -/
lemma textWith_text (e new : Expr) (p : Path) : e.textWith new.text p = (e.replace p new).text := by
  induction p generalizing e with
  | nil => rw [textWith, replace_nil]
  | cons i p ih =>
      cases e with
      | atom s => rw [textWith, replace_atom_cons, text_atom]
      | group es =>
          rw [textWith, replace_group_cons, text_group]
          congr 3
          apply List.ext_getElem?
          intro j
          rw [List.getElem?_mapIdx, List.getElem?_map, List.getElem?_modify]
          cases hj : es[j]? with
          | none => rfl
          | some d =>
              by_cases hij : i = j
              · simp [hij, ih]
              · simp [hij, Ne.symm hij]

/-- The text of the node itself in its place changes nothing. -/
lemma textWith_text_of_get? {e node : Expr} {p : Path} (h : e.get? p = some node) :
    e.textWith node.text p = e.text := by
  rw [textWith_text, replace_of_get?_eq_some h]

/-- A target that is neither marked nor collapsed is written as it is. -/
lemma render_plain (f : Evaluator) (marker : Marker) (e : Expr) :
    e.render f marker {} = .pure (.ok e.text) := by
  rw [render]
  cases ht : e.target? with
  | none => rfl
  | some t => simp [textWith_text_of_get? (get?_of_target? ht).1]

end Expr

end Innermost
