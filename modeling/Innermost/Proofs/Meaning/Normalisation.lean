import Innermost.Proofs.Literal.LongestMatch
import Innermost.Proofs.Literal.Places
import Innermost.Proofs.Meaning.Flattening

/-!
The spacing of a text means nothing.

* `lexemes_text_of_parse`: a text that is read as an expression has the same lexemes as
  the text of that expression, in which spaces stand in other places.
* `evaluate_text_of_parse`: so the longest lexemes of both texts, without those of blanks,
  are the same ones, and both have the same value, or fail for the same cause.
-/

namespace Innermost

/-- Lexemes without those of blanks. -/
def withoutBlanks (ls : List Lexeme) : List Lexeme := ls.filter fun l => l.kind ≠ .blank

/-- The tokens of a text are those of its longest lexemes that are not blank. -/
lemma Cuts.withoutBlanks_eq {text : String} {ls : List Lexeme} (h : Cuts text.toList ls) :
    withoutBlanks ls = (tokens text).map Token.bare := by
  rw [(cuts_iff 0).mp h, withoutBlanks, List.filter_map]
  rfl

namespace Expr

/-- A text that is read has the lexemes of the text of what it is read as. -/
lemma lexemes_text_of_parse {text : String} {e : Expr} (h : parse text = .ok e) :
    Innermost.lexemes e.text.toList = Innermost.lexemes text.toList :=
  (legible_of_parse h).lexemes_text.trans (lexemes_of_parse h).symm

end Expr

/-- **Reading a text and writing down what was read does not change what it means.** The two
texts are cut into the same lexemes, apart from blanks, and they have the same value or
the same fault. -/
theorem evaluate_text_of_parse {text : String} {e : Expr} (h : Expr.parse text = .ok e) :
    (tokens e.text).map Token.bare = (tokens text).map Token.bare ∧
      (∀ {ls ls' : List Lexeme}, Cuts text.toList ls → Cuts e.text.toList ls' →
        withoutBlanks ls' = withoutBlanks ls) ∧
      (evaluate e.text).mapError Diagnostic.cause = (evaluate text).mapError Diagnostic.cause := by
  have htokens : (tokens e.text).map Token.bare = (tokens text).map Token.bare := by
    rw [bare_tokens, bare_tokens, Expr.lexemes_text_of_parse h]
  refine ⟨htokens, fun {ls ls'} hls hls' => ?_, (evaluate_alike htokens).mapError_eq⟩
  rw [hls'.withoutBlanks_eq, hls.withoutBlanks_eq, htokens]

/-- A space more and one less move the fault to another place. -/
theorem evaluate_text_of_parse_respaced :
    let e : Expr := .group [.group [.atom "1"], .atom "+(f(x"]
    Expr.parse "((1)+(f(x )" = .ok e ∧ e.text = "((1) +(f(x)" ∧
      (tokens "((1) +(f(x)").map Token.bare = (tokens "((1)+(f(x )").map Token.bare ∧
      evaluate "((1)+(f(x )" = .error ((LiteralFault.unknownName "f" []).at [⟨6, 7⟩]) ∧
      (evaluate "((1) +(f(x)").mapError Diagnostic.cause =
        .error (.literal (.unknownName "f" [])) := by
  intro e
  have hparse : Expr.parse "((1)+(f(x )" = .ok e := by decide +kernel
  have htext : e.text = "((1) +(f(x)" := by decide +kernel
  have heval : evaluate "((1)+(f(x )" =
      .error ((LiteralFault.unknownName "f" []).at [⟨6, 7⟩]) := by decide +kernel
  obtain ⟨htokens, -, hcause⟩ := evaluate_text_of_parse hparse
  rw [htext] at htokens hcause
  exact ⟨hparse, htext, htokens, heval, hcause.trans (heval ▸ rfl)⟩

end Innermost
