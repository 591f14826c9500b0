import Innermost.Practice
import Innermost.Proofs.Practice.Chain

/-!
Practice expressions are chains, whatever the random words are.

* `Supply.reach` counts the words that a supply needs. A word that is drawn again is one of its
  own, so a choice adds at most one to it (`Supply.reach_choose_le`).
* `Makes`: what is made of the words for a depth. The recursion may stay at its depth, but only
  at the expense of a word, so the depth and the words together bound the groups
  (`Makes.around`, `exists_makes`).
* `expression_solved` adds what is known of chains: how they are read, and how they are solved.
-/

namespace Innermost

/-! ### The use of words -/

namespace Supply

variable {s : Supply}

/-- The words that have to be there: those of the supply, or those that have been drawn if
these are more. -/
def reach (s : Supply) : Nat := max s.used s.length

lemma reach_next_le (s : Supply) : s.next.reach ≤ s.reach + 1 := by
  simp only [reach, next]
  omega

/-- A word that has to be drawn again is one of the supply's own. -/
lemma reach_next_of_peek_ne (h : s.peek ≠ upperBit) : s.next.reach = s.reach := by
  simp only [peek] at h
  simp only [reach, next]
  split at h
  · omega
  · exact absurd rfl h

lemma reach_choose_le (s : Supply) : s.choose.2.reach ≤ s.reach + 1 := by
  fun_induction choose s with
  | case1 s h => exact s.reach_next_le
  | case2 s h ih =>
      have hne : s.peek ≠ upperBit := fun h' => h (by rw [h']; decide)
      rwa [reach_next_of_peek_ne hne] at ih

/-- A choice and a flip need two words. -/
lemma reach_choose_flip_le (s : Supply) : s.choose.2.flip.2.reach ≤ s.reach + 2 :=
  s.choose.2.reach_next_le.trans (Nat.add_le_add_right s.reach_choose_le 1)

end Supply

namespace Practice

/-! ### Parts -/

/-- The connective that is chosen. -/
def connective (second : Bool) : Connective := if second then .or else .and

lemma boolean_eq (s : Supply) : boolean s = (.truth s.flip.1, s.flip.2) := rfl

lemma operator_eq (s : Supply) :
    operator s = (.atom (connective s.choose.1).sign, s.choose.2) := by
  simp only [operator, connective]
  split_ifs <;> rfl

lemma le_nestedDepth_succ (depth : Nat) (shallower : Bool) :
    depth ≤ nestedDepth depth shallower + 1 := by
  rw [nestedDepth]
  split_ifs <;> omega

/-! ### Whole expressions -/

/-- What is made of the words of a supply when an expression of a given depth is asked for. -/
structure Makes (depth : Nat) (s : Supply) (c : Chain) (made : Expr × Supply) : Prop where
  expr_eq : made.1 = c.expr
  lt_groups : depth < c.groups
  /-- A group more than the depth asks for is paid for by a word. -/
  groups_le : c.groups ≤ depth + 1 + s.unused
  /-- The words past the end are less than four for each group. -/
  reach_lt : made.2.reach < s.reach + 4 * c.groups

/-- A group around a chain adds one to what the chain has. -/
lemma Makes.around {depth depth' before after : Nat} {s s₁ s₂ : Supply} {inner c : Chain}
    {made : Expr × Supply} (h : Makes depth' s₁ inner made) (hc : c.groups = inner.groups + 1)
    (hdepth : depth ≤ depth' + 1) (hwords : depth' + s₁.unused < depth + s.unused)
    (hbefore : s₁.reach ≤ s.reach + before) (hafter : s₂.reach ≤ made.2.reach + after)
    (hdraws : before + after = 4) : Makes depth s c (c.expr, s₂) := by
  obtain ⟨-, hlt, hle, hreach⟩ := h
  refine ⟨rfl, ?_, ?_, ?_⟩
  · omega
  · omega
  · simp only
    omega

/-- **Whatever the words are, a chain is made of them.** -/
theorem exists_makes (depth : Nat) (s : Supply) : ∃ c, Makes depth s c (expression depth s) := by
  fun_induction expression depth s with
  | case1 s parts s₁ h =>
      simp only [operation, boolean_eq, operator_eq, Prod.mk.injEq] at h
      obtain ⟨rfl, rfl⟩ := h
      have hleft : s.flip.2.reach ≤ s.reach + 1 := s.reach_next_le
      have hrest := s.flip.2.reach_choose_flip_le
      refine ⟨.pair _ _ _, rfl, Nat.zero_lt_one, Nat.le_add_right _ _, ?_⟩
      simp only [Chain.groups]
      omega
  | case2 depth s hpos shallower depth' nestedFirst _ nested s₁ hnested op s₂ hop literal s₃
      hliteral ih =>
      obtain ⟨inner, hinner⟩ := ih
      rw [hnested] at hinner
      obtain rfl : nested = inner.expr := hinner.expr_eq
      obtain ⟨rfl, rfl⟩ := Prod.mk.inj (hop.symm.trans (operator_eq s₁))
      obtain ⟨rfl, rfl⟩ := Prod.mk.inj (hliteral.symm.trans (boolean_eq s₁.choose.2))
      have hwords : depth' + nestedFirst.2.unused < depth + s.unused :=
        (Nat.add_le_add_left shallower.2.unused_flip_le _).trans_lt
          (nestedDepth_add_unused_lt hpos s)
      exact ⟨.nestedLeft inner _ _, hinner.around rfl (le_nestedDepth_succ _ _) hwords
        s.reach_choose_flip_le s₁.reach_choose_flip_le rfl⟩
  | case3 depth s hpos shallower depth' nestedFirst _ literal op nested s₁ hnested ih =>
      obtain ⟨inner, hinner⟩ := ih
      rw [hnested] at hinner
      obtain rfl : nested = inner.expr := hinner.expr_eq
      have hwords : depth' + op.2.unused < depth + s.unused := by
        have hop : op.2.unused ≤ literal.2.unused := unused_operator_le _
        have hliteral : literal.2.unused ≤ nestedFirst.2.unused := unused_boolean_le _
        have hfirst : nestedFirst.2.unused ≤ shallower.2.unused := shallower.2.unused_flip_le
        have hdepth : depth' + shallower.2.unused < depth + s.unused :=
          nestedDepth_add_unused_lt hpos s
        omega
      have hbefore : op.2.reach ≤ s.reach + 4 := by
        have hop : op.2.reach ≤ literal.2.reach + 1 := Supply.reach_choose_le _
        have hliteral : literal.2.reach ≤ nestedFirst.2.reach + 1 := Supply.reach_next_le _
        have hfirst : nestedFirst.2.reach ≤ s.reach + 2 := s.reach_choose_flip_le
        omega
      have hoperator : op.1 = .atom (connective literal.2.choose.1).sign :=
        congrArg Prod.fst (operator_eq literal.2)
      have hafter : s₁.reach ≤ s₁.reach + 0 := le_rfl
      rw [hoperator]
      exact ⟨.nestedRight _ _ inner, hinner.around rfl (le_nestedDepth_succ _ _) hwords hbefore
        hafter rfl⟩

/-- **Practice expressions are chains, and are solved to their truth value.** Whatever depth is
asked for, and whatever the words of the supply are, with `2 ^ 63` for ever behind them, the
expression comes to an end, which takes less than four words for each group and those that the
supply holds. It is a chain of more groups than the depth says, fully spaced. Its text

* is read exactly if it has at most `maxDepth` groups, and otherwise it is refused because it is
  nested too deeply;
* has the truth value of the chain;
* is solved, if it is read and enough steps are allowed, in one step for each group, the last of
  which is not shown, and the answer is the truth value. -/
theorem expression_solved (depth : Nat) (s : Supply) :
    ∃ c : Chain, (expression depth s).1 = c.expr ∧ (expression depth s).1.text = c.text ∧
      depth < c.groups ∧ c.groups ≤ depth + 1 + s.unused ∧
      (expression depth s).2.used < max s.used s.length + 4 * c.groups ∧
      (Expr.parse c.text = .ok c.expr ↔ c.groups ≤ maxDepth) ∧
      (maxDepth < c.groups → ∃ place, Expr.parse c.text = .error ⟨.read .tooDeep, [place]⟩) ∧
      evaluate c.text = .ok (.boolean c.value) ∧
      ∀ (marker : Marker) (maxSteps : Nat), c.groups ≤ maxDepth → c.groups ≤ maxSteps →
        ∃ steps, trace ⟨.literal, marker, maxSteps⟩ c.text =
          .ok ⟨steps, .group [.atom (truthText c.value)]⟩ ∧ steps.length = c.groups - 1 := by
  obtain ⟨c, hexpr, hlt, hle, hreach⟩ := exists_makes depth s
  have htext : (expression depth s).1.text = c.text := by rw [hexpr, c.solves.text_eq]
  exact ⟨c, hexpr, htext, hlt, hle, (le_max_left _ _).trans_lt hreach, c.parse_text.1,
    c.parse_text.2, c.evaluate_text, fun _ _ => c.trace_text⟩

/-- Without words of its own a supply adds no group: 255 is the greatest depth at which such an
expression is read. -/
theorem expression_solved_at_limit :
    (∃ steps answer, trace {} (expression 255 (.ofList [])).1.text = .ok ⟨steps, answer⟩ ∧
      steps.length = 255) ∧
      ∃ place, Expr.parse (expression 256 (.ofList [])).1.text =
        .error ⟨.read .tooDeep, [place]⟩ := by
  constructor
  · obtain ⟨c, -, htext, hlt, hle, -, -, -, -, htrace⟩ := expression_solved 255 (.ofList [])
    have hgroups : c.groups = 256 := Nat.le_antisymm hle hlt
    obtain ⟨steps, hsteps, hlength⟩ := htrace .brackets 1024 (by simp [hgroups, maxDepth])
      (by simp [hgroups])
    exact ⟨steps, _, by rw [htext]; exact hsteps, by rw [hlength, hgroups]⟩
  · obtain ⟨c, -, htext, hlt, -, -, -, htooDeep, -⟩ := expression_solved 256 (.ofList [])
    rw [htext]
    exact htooDeep hlt

end Practice

end Innermost
