import Innermost.Proofs.Reducing.Nodes
import Innermost.Proofs.Rendering.Marking
import Innermost.Proofs.Tracing.Rereading

/-!
Writing and reading are inverse to each other, exactly on the readable
expressions.

* `readable_iff`: an expression is readable if all atoms among its nodes are words
  and it nests at most `maxDepth` groups.
* `parse_text_iff_readable`: an expression is what its own text is read as exactly
  if it is readable. The texts of the others may well be read, as something else.
* `parse_text_eq_ok_iff` adds that what is written of an expression that was read is
  its normal form.
-/

namespace Innermost.Expr

/-- An expression is legible exactly if all atoms among its nodes are words. -/
lemma legible_iff {e : Expr} : e.Legible ↔ ∀ word, .atom word ∈ e.nodes → IsWord word := by
  induction e using ind with
  | atom s => simp [nodes, legible_atom_iff]
  | group es ih =>
      rw [legible_group_iff, forall_words_group_iff]
      exact forall₂_congr ih

lemma readable_iff {e : Expr} :
    e.Readable ↔ (∀ word, .atom word ∈ e.preOrder → IsWord word) ∧ e.depth ≤ maxDepth := by
  rw [preOrder_eq_nodes, ← legible_iff]
  exact ⟨fun h => ⟨h.legible, h.depth_le⟩, fun h => ⟨h.1, h.2⟩⟩

/-- Exactly the readable expressions are what their own text is read as. -/
lemma parse_text_iff_readable {e : Expr} : parse e.text = .ok e ↔ e.Readable :=
  ⟨readable_of_parse, Readable.parse_text⟩

/-- **Writing and reading are inverse to each other exactly on the readable
expressions**: those whose atoms are words, and which nest at most `maxDepth`
groups. What is read from a text is one of them. What is written of it, by itself
or as a line in which nothing stands out, is therefore a normal form of the text: it
is read as the same expression and written as it stands. -/
theorem parse_text_eq_ok_iff :
    (∀ e : Expr, parse e.text = .ok e ↔
      (∀ word, .atom word ∈ e.preOrder → IsWord word) ∧ e.depth ≤ maxDepth) ∧
    ∀ (text : String) (e : Expr), parse text = .ok e →
      ((∀ word, .atom word ∈ e.preOrder → IsWord word) ∧ e.depth ≤ maxDepth) ∧
        (∀ f marker, e.render f marker {} = .pure (.ok e.text)) ∧
        parse e.text = .ok e ∧ (parse e.text).map Expr.text = .ok e.text := by
  refine ⟨fun e => parse_text_iff_readable.trans readable_iff, fun text e h => ?_⟩
  have he := readable_of_parse h
  have hparse := he.parse_text
  exact ⟨readable_iff.mp he, fun f marker => render_plain f marker e, hparse, by rw [hparse]; rfl⟩

/-- The normal form of a group that is spelled with other blanks, and in which an
atom runs on over an opening parenthesis. -/
theorem parse_text_eq_ok_iff_spaced :
    let e : Expr := .group [.atom "a(", .group [], .atom "b"]
    parse "\t( a(\n()b ) " = .ok e ∧ e.text = "(a( () b)" ∧ parse "(a( () b)" = .ok e := by
  intro e
  have hparse : parse "\t( a(\n()b ) " = .ok e := by decide +kernel
  have htext : e.text = "(a( () b)" := by decide +kernel
  obtain ⟨-, -, hread, -⟩ := parse_text_eq_ok_iff.2 _ _ hparse
  exact ⟨hparse, htext, htext ▸ hread⟩

end Innermost.Expr
