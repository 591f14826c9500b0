import Innermost.Proofs.Grammar.Depth
import Innermost.Proofs.Meaning.Preservation
import Innermost.Proofs.Tracing.Length

/-!
Chains: the boolean expressions whose groups all lie inside each other.

* `Chain`: two operands around a connective, of which at most one is a chain again and the
  others are truth values.
* `Expr.Solves`: what is known of such an operand. It nests as many groups as have to be
  reduced, and comes to its truth value wherever it stands. A connective between two operands,
  one of which has no groups, hands this on (`Solves.operation`), so it holds of every chain
  (`Chain.solves`).
* `length_steps_settle`: an expression with a value is reduced once for each live group.
* `Chain.trace_text`: so a chain that is read is solved in as many steps as it has groups.
-/

namespace Innermost

/-! ### Connectives -/

/-- The connectives of chains. -/
inductive Connective where
  | and
  | or
  deriving DecidableEq

namespace Connective

/-- The sign of a connective. -/
def sign : Connective → String
  | and => "&&"
  | or => "||"

/-- What a connective makes of two truth values. -/
def apply : Connective → Bool → Bool → Bool
  | and, x, y => x && y
  | or, x, y => x || y

/-- The operator that a connective is written for. -/
def operator : Connective → BinaryOp
  | and => .and
  | or => .or

lemma isAtomic_sign (c : Connective) : isAtomic c.sign = true := by cases c <;> decide

lemma lexemes_sign (c : Connective) : lexemes c.sign.toList = [⟨.operator c.operator, c.sign⟩] := by
  cases c <;> decide +kernel

lemma eval_operator (c : Connective) (x y : Bool) :
    c.operator.eval (.boolean x) (.boolean y) = .ok (.boolean (c.apply x y)) := by
  cases c <;> rfl

end Connective

/-! ### Operands -/

/-- How a truth value is written. -/
def truthText (b : Bool) : String := if b then "true" else "false"

lemma text_boolean (b : Bool) : (Value.boolean b).text = truthText b := by cases b <;> rfl

namespace Expr

/-- The literal of a truth value. -/
def truth (b : Bool) : Expr := .atom (truthText b)

/-- Two operands around a connective. -/
def operation (left : Expr) (c : Connective) (right : Expr) : Expr :=
  .group [left, .atom c.sign, right]

/-- What is known of an operand that nests `groups` groups inside each other, is written as
`text` and has the truth value `b`. -/
structure Solves (e : Expr) (groups : Nat) (text : String) (b : Bool) : Prop where
  text_eq : e.text = text
  legible : e.Legible
  /-- The groups lie inside each other. -/
  depth_eq : e.depth = groups
  wide : e.Wide
  /-- Every group has to be reduced. -/
  liveCount_eq : e.liveCount = groups
  /-- Wherever the operand stands, it is taken up as one, and comes to its value. -/
  yields : ∀ rest, Yields .operand (e.lexemes ++ rest) (.boolean b) rest

lemma solves_truth (b : Bool) : (truth b).Solves 0 (truthText b) b where
  text_eq := text_atom _
  legible := by
    rw [truth, ← text_boolean]
    exact .atom (isWord_of_isAtomic (Value.boolean b).isAtomic_text)
  depth_eq := depth_atom _
  wide := .atom
  liveCount_eq := liveCount_atom _
  yields rest := by
    rw [truth, ← text_boolean, lexemes_atom]
    exact yields_text _ rest

/-- A connective between two operands, one of which is a literal. -/
lemma Solves.operation {left right : Expr} {m n : Nat} {s t : String} {x y : Bool}
    (hleft : left.Solves m s x) (c : Connective) (hright : right.Solves n t y)
    (hliteral : m = 0 ∨ n = 0) :
    (operation left c right).Solves (m + n + 1)
      ("(" ++ s ++ " " ++ c.sign ++ " " ++ t ++ ")") (c.apply x y) := by
  have hwide : (Expr.operation left c right).Wide :=
    .group (by simp) (by simp [hleft.wide, hright.wide, Wide.atom])
  refine ⟨?_, ?_, ?_, hwide, ?_, fun rest => ?_⟩
  · simp [Expr.operation, text_group, hleft.text_eq, hright.text_eq, String.append_assoc]
  · have hsign := isWord_of_isAtomic c.isAtomic_sign
    exact .group (by simp [hleft.legible, hright.legible, legible_atom_iff, hsign])
  · simp only [Expr.operation, depth_group, depthAll_cons, depthAll_nil, depth_atom, hleft.depth_eq,
      hright.depth_eq]
    omega
  · rw [Expr.operation] at hwide ⊢
    rw [liveCount_group, if_pos hwide]
    simp [hleft.liveCount_eq, hright.liveCount_eq]
  · have hclosing : Rests 0 (.closing :: rest) := rests_cons (by simp [Lexeme.closing]) 0 rest
    have hconnective : Yields (.operators 0 (.boolean x))
        (⟨.operator c.operator, c.sign⟩ :: (right.lexemes ++ .closing :: rest))
        (.boolean (c.apply x y)) (.closing :: rest) :=
      .apply rfl (Nat.zero_le _) (hright.yields _) (.stop (hclosing.mono (Nat.zero_le _)))
        (c.eval_operator x y) (.stop hclosing)
    have hparens := Yields.parens (l := .opening) (m := .closing) rfl (hleft.yields _) hconnective
      rfl
    simpa [Expr.operation, bracketed_append, c.lexemes_sign] using hparens

lemma Solves.means {e : Expr} {groups : Nat} {text : String} {b : Bool}
    (h : e.Solves groups text b) : Means e.lexemes (.boolean b) :=
  ⟨.boolean b, [], by simpa using h.yields [], .stop (rests_nil 0)⟩

/-! ### The number of reductions -/

/-- An expression that has a value is reduced once for each live group. -/
lemma length_steps_settle {e : Expr} {v : Value} (he : e.Legible) (hv : Means e.lexemes v) :
    (e.settle .literal).steps.length = e.liveCount := by
  induction hn : e.nodeCount using Nat.strong_induction_on generalizing e with
  | _ n ih =>
      subst hn
      cases ht : e.target? with
      | none =>
          rw [steps_settle_of_target?_eq_none _ ht, liveCount_eq_zero_of_target?_eq_none ht]
          rfl
      | some t =>
          obtain ⟨w, hw, -, hnext⟩ := exists_value_of_target? he hv ht
          have hlegible : (e.replace t.path (.atom w.text)).Legible :=
            he.replace (.atom (isWord_of_isAtomic w.isAtomic_text)) t.path
          rw [steps_settle_of_target? ht hw, ← liveCount_replace_target ht w.text,
            ih _ (nodeCount_replace_lt ht w.text) hlegible hnext rfl]

end Expr

/-! ### Chains -/

/-- Operations inside each other: each but the innermost one is on a truth value and another
operation. -/
inductive Chain where
  | pair (left : Bool) (c : Connective) (right : Bool)
  | nestedLeft (inner : Chain) (c : Connective) (right : Bool)
  | nestedRight (left : Bool) (c : Connective) (inner : Chain)

namespace Chain

open Innermost.Expr (truth operation)

/-- The number of groups. -/
def groups : Chain → Nat
  | pair _ _ _ => 1
  | nestedLeft inner _ _ => inner.groups + 1
  | nestedRight _ _ inner => inner.groups + 1

/-- The truth value. -/
def value : Chain → Bool
  | pair left c right => c.apply left right
  | nestedLeft inner c right => c.apply inner.value right
  | nestedRight left c inner => c.apply left inner.value

/-- The expression. -/
def expr : Chain → Expr
  | pair left c right => operation (truth left) c (truth right)
  | nestedLeft inner c right => operation inner.expr c (truth right)
  | nestedRight left c inner => operation (truth left) c inner.expr

/-- How a chain is written: with parentheses around each operation, and one space on each side
of a connective. -/
def text : Chain → String
  | pair left c right => "(" ++ truthText left ++ " " ++ c.sign ++ " " ++ truthText right ++ ")"
  | nestedLeft inner c right => "(" ++ inner.text ++ " " ++ c.sign ++ " " ++ truthText right ++ ")"
  | nestedRight left c inner => "(" ++ truthText left ++ " " ++ c.sign ++ " " ++ inner.text ++ ")"

lemma solves (c : Chain) : c.expr.Solves c.groups c.text c.value := by
  induction c with
  | pair left c right =>
      exact (Expr.solves_truth left).operation c (Expr.solves_truth right) (.inl rfl)
  | nestedLeft inner c right ih => exact ih.operation c (Expr.solves_truth right) (.inr rfl)
  | nestedRight left c inner ih =>
      have h := (Expr.solves_truth left).operation c ih (.inl rfl)
      rwa [Nat.zero_add] at h

lemma isAtom_expr (c : Chain) : c.expr.isAtom = false := by cases c <;> rfl

section Text

variable (c : Chain)

/-- A chain is read unless it has too many groups, and then it is refused for that. -/
lemma parse_text :
    (Expr.parse c.text = .ok c.expr ↔ c.groups ≤ maxDepth) ∧
      (maxDepth < c.groups → ∃ place, Expr.parse c.text = .error ⟨.read .tooDeep, [place]⟩) := by
  obtain ⟨htext, hlegible, hdepth, -, -, -⟩ := c.solves
  rw [← htext, ← hdepth]
  exact ⟨⟨fun h => hlegible.exists_parse_text_iff.mp ⟨_, h⟩, hlegible.parse_text⟩,
    hlegible.exists_tooDeep⟩

lemma evaluate_text : evaluate c.text = .ok (.boolean c.value) := by
  rw [← c.solves.text_eq, c.solves.legible.evaluate_text_iff]
  exact c.solves.means

/-- A chain that is read is solved group by group, and the last step is not shown. -/
lemma trace_text {marker : Marker} {maxSteps : Nat} (hdepth : c.groups ≤ maxDepth)
    (hsteps : c.groups ≤ maxSteps) :
    ∃ steps, trace ⟨.literal, marker, maxSteps⟩ c.text =
      .ok ⟨steps, .group [.atom (truthText c.value)]⟩ ∧ steps.length = c.groups - 1 := by
  obtain ⟨-, hlegible, -, hwide, hlive, -⟩ := c.solves
  have hparse : Expr.parse c.text = .ok c.expr := c.parse_text.1.mpr hdepth
  have hmeans : Means c.expr.lexemes (.boolean c.value) := c.solves.means
  have hlength : (c.expr.settle .literal).steps.length = c.groups := by
    rw [Expr.length_steps_settle hlegible hmeans, hlive]
  have hkeeps : KeepsValue marker (.boolean c.value) c.expr
      (historyOf ⟨.literal, marker, maxSteps⟩ c.text) := by
    rw [historyOf_of_parse hparse]
    exact keepsValue_historyFrom (Expr.readable_of_parse hparse) hmeans (hlength.trans_le hsteps)
  obtain ⟨answer, -, hout, hsole, -⟩ := hkeeps.answer
  obtain rfl : answer = .group [.atom (truthText c.value)] := by
    rw [hsole c.isAtom_expr hwide, soleAnswer, text_boolean]
  have hrun := hkeeps.length_steps
  rw [run_historyOf] at hout hrun
  exact ⟨_, trace_of_outcome hout, by rw [List.length_dropLast, hrun, hlength]⟩

end Text

end Chain

end Innermost
