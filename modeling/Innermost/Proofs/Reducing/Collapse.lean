import Innermost.Proofs.Reducing.Questions
import Innermost.Proofs.Reducing.Targets

/-!
Repeated simplification, which searches the whole expression anew for every
reduction, does what one pass over the expression does.

* `Expr.collapse` is that pass: from the bottom up and from left to right, each
  group asks about itself once its children are collapsed.
* `Expr.Simplifies` is the repetition: simplify as long as a group is reducible
  and no evaluation fails.
* `collapse_simplify`: a simplification leaves the pass what it still has to do,
  in the same order. The children before the target hold no reducible group, so
  the pass leaves them as they are (`collapse_of_target?_eq_none`) and comes to
  the target first.
* `simplifies_iff_collapse`: repetition and pass ask the same questions and end
  alike.
-/

namespace Innermost

namespace Expr

variable (f : Evaluator)

/-! ### One pass -/

/-- The group of these collapsed children. If it holds at least two of them, all atoms,
the evaluator is asked about its text, once, and the answer is the atom that the group
becomes; an error is a failure at this text, and so is an answer that is no atom, of
which the whole text is shown. Otherwise the group stays. -/
def closeGroup (children : List Expr) : Consultation (Except Failure Expr) :=
  let text := (group children).text
  if children.all isAtom ∧ 2 ≤ children.length then
    ⟨[text], match f text with
      | .error d => .error ⟨.group, text, d⟩
      | .ok value =>
          if isAtomic value then .ok (.atom value)
          else .error ⟨.group, text,
            ⟨.reduction (.notAtomic value), [⟨0, text.utf8ByteSize⟩]⟩⟩⟩
  else .pure (.ok (.group children))

mutual

/-- Collapses an expression in one pass: an atom stays; a group collapses its
children in order and then itself. -/
def collapse : Expr → Consultation (Except Failure Expr)
  | .atom text => .pure (.ok (.atom text))
  | .group children => (collapseAll children).andThen (closeGroup f)

/-- Collapses several expressions, from the first one on. -/
def collapseAll : List Expr → Consultation (Except Failure (List Expr))
  | [] => .pure (.ok [])
  | e :: es =>
      (collapse e).andThen fun e' => (collapseAll es).andThen fun es' => .pure (.ok (e' :: es'))

end

/-- A reducible group collapses to the atom that it evaluates to. -/
lemma closeGroup_of_isReducible {es : List Expr} (h : (group es).isReducible = true) :
    closeGroup f es = ((group es).evaluate f).map (·.map .atom) := by
  rw [closeGroup, if_pos (isReducible_group_iff.mp h), evaluate_of_isReducible f h]
  cases f (group es).text with
  | error d => rfl
  | ok value =>
      rw [acceptAnswer]
      simp only
      split_ifs <;> rfl

lemma closeGroup_of_not_isReducible {es : List Expr} (h : (group es).isReducible = false) :
    closeGroup f es = .pure (.ok (.group es)) := by
  rw [closeGroup, if_neg]
  rw [← isReducible_group_iff, h]
  exact Bool.false_ne_true

mutual

/-- An expression without a target collapses to itself, without a question. -/
lemma collapse_of_target?_eq_none : ∀ {e : Expr}, e.target? = none →
    e.collapse f = .pure (.ok e)
  | .atom s, _ => by rw [collapse]
  | .group es, h => by
      rw [target?] at h
      split at h
      · simp at h
      · rename_i hr
        rw [collapse, collapseAll_of_targetAmong?_eq_none h, Consultation.pure_andThen,
          closeGroup_of_not_isReducible f (by simpa using hr)]

lemma collapseAll_of_targetAmong?_eq_none : ∀ {k : Nat} {es : List Expr},
    targetAmong? k es = none → collapseAll f es = .pure (.ok es)
  | _, [], _ => by rw [collapseAll]
  | k, e :: es, h => by
      rw [targetAmong?] at h
      split at h
      · simp at h
      · rename_i he
        rw [collapseAll, collapse_of_target?_eq_none he, Consultation.pure_andThen,
          collapseAll_of_targetAmong?_eq_none h, Consultation.pure_andThen]

end

/-- Atoms collapse to themselves. -/
lemma collapseAll_of_all_isAtom {es : List Expr} (h : es.all isAtom = true) :
    collapseAll f es = .pure (.ok es) := by
  induction es with
  | nil => rw [collapseAll]
  | cons e es ih =>
      rw [List.all_cons, Bool.and_eq_true] at h
      cases e with
      | group cs => exact absurd h.1 (by simp [isAtom])
      | atom s =>
          rw [collapseAll, collapse, Consultation.pure_andThen, ih h.2, Consultation.pure_andThen]

mutual

/-- The first question of the pass is about the target, and then the pass has to
do what it would do with the target reduced. -/
lemma collapse_of_target? : ∀ {e : Expr} {t : Located}, e.target? = some t →
    e.collapse f =
      (t.node.evaluate f).andThen fun value => (e.replace t.path (.atom value)).collapse f
  | .atom s, t, h => by simp [target?] at h
  | .group es, t, h => by
      rw [target?] at h
      split at h
      · rename_i hr
        obtain rfl : (⟨[], group es⟩ : Located) = t := Option.some.inj h
        have hatoms := (isReducible_group_iff.mp hr).1
        rw [collapse, collapseAll_of_all_isAtom f hatoms, Consultation.pure_andThen,
          closeGroup_of_isReducible f hr, ← Consultation.andThen_pure]
        simp only [replace_nil, collapse]
      · rename_i hr
        obtain ⟨i, q, hq, hall⟩ := collapseAll_of_targetAmong? h
        rw [collapse, hall, Consultation.andThen_assoc]
        congr 1
        funext value
        rw [hq, Nat.zero_add, replace_group_cons, collapse]

/-- The same for the first target among neighbours. -/
lemma collapseAll_of_targetAmong? : ∀ {k : Nat} {es : List Expr} {t : Located},
    targetAmong? k es = some t →
    ∃ i q, t.path = (k + i) :: q ∧
      collapseAll f es = (t.node.evaluate f).andThen fun value =>
        collapseAll f (es.modify i (replace · q (.atom value)))
  | _, [], _, h => by simp [targetAmong?] at h
  | k, e :: es, t, h => by
      rw [targetAmong?] at h
      split at h
      · rename_i found hfound
        obtain rfl : found.below k = t := Option.some.inj h
        refine ⟨0, found.path, rfl, ?_⟩
        rw [collapseAll, collapse_of_target? hfound, Consultation.andThen_assoc]
        simp only [List.modify_zero_cons, collapseAll, Located.below]
      · rename_i he
        obtain ⟨i, q, hq, hall⟩ := collapseAll_of_targetAmong? h
        refine ⟨i + 1, q, by rw [hq, Nat.add_right_comm, Nat.add_assoc], ?_⟩
        rw [collapseAll, collapse_of_target?_eq_none f he, Consultation.pure_andThen, hall,
          Consultation.andThen_assoc]
        congr 1
        funext value
        rw [List.modify_succ_cons, collapseAll, collapse_of_target?_eq_none f he,
          Consultation.pure_andThen]

end

/-! ### One simplification -/

lemma simplify_of_target?_eq_none {e : Expr} (h : e.target? = none) :
    e.simplify f = .pure (.ok e) := by
  rw [simplify, Reduction.find, h]
  rfl

lemma simplify_of_target? {e : Expr} {t : Located} (h : e.target? = some t) :
    e.simplify f = (t.node.evaluate f).map (·.map fun value => e.replace t.path (.atom value)) := by
  rw [simplify, Reduction.find, h]
  cases hv : (t.node.evaluate f).answer <;> simp [Consultation.map, hv, Except.map, Reduction.apply]

/-- **A simplification is the beginning of the pass**: the pass over what it
results in asks the remaining questions and ends alike. -/
theorem collapse_simplify (e : Expr) : (e.simplify f).andThen (collapse f) = e.collapse f := by
  cases h : e.target? with
  | none => rw [simplify_of_target?_eq_none f h, Consultation.pure_andThen]
  | some t => rw [simplify_of_target? f h, Consultation.map_andThen, collapse_of_target? f h]

/-- A simplification that succeeds on an expression with a reducible group makes
it smaller. -/
lemma nodeCount_lt_of_simplify {e next : Expr} (h : e.hasReducible = true)
    (hs : (e.simplify f).answer = .ok next) : next.nodeCount < e.nodeCount := by
  rw [hasReducible_eq_isSome_target?, Option.isSome_iff_exists] at h
  obtain ⟨t, ht⟩ := h
  rw [simplify_of_target? f ht, Consultation.answer_map] at hs
  cases hv : (t.node.evaluate f).answer with
  | error failure => simp [hv, Except.map] at hs
  | ok value =>
      rw [hv] at hs
      rw [← Except.ok.inj hs]
      exact nodeCount_replace_lt ht value

/-! ### Repeated simplification -/

/-- An expression is simplified again and again, until none of its groups is
reducible or an evaluation fails; on the way the evaluator is asked about the
groups `asked`, and the `outcome` is the last expression or the failure. -/
inductive Simplifies : Expr → (asked : List String) → (outcome : Except Failure Expr) → Prop where
  | done {e : Expr} (h : e.hasReducible = false) : Simplifies e [] (.ok e)
  | failed {e : Expr} {failure : Failure} (h : e.hasReducible = true)
      (hs : (e.simplify f).answer = .error failure) :
      Simplifies e (e.simplify f).asked (.error failure)
  | step {e next : Expr} {asked : List String} {outcome : Except Failure Expr}
      (h : e.hasReducible = true) (hs : (e.simplify f).answer = .ok next)
      (hrest : Simplifies next asked outcome) :
      Simplifies e ((e.simplify f).asked ++ asked) outcome

/-- What is asked and found by repetition is what the pass asks and finds. -/
lemma Simplifies.collapse_eq {e : Expr} {asked : List String} {outcome : Except Failure Expr}
    (h : e.Simplifies f asked outcome) : e.collapse f = ⟨asked, outcome⟩ := by
  induction h with
  | @done e h =>
      rw [hasReducible_eq_isSome_target?, Option.isSome_eq_false_iff,
        Option.isNone_iff_eq_none] at h
      exact collapse_of_target?_eq_none f h
  | @failed e failure h hs => rw [← collapse_simplify, Consultation.andThen_of_error hs]
  | @step e next asked outcome h hs hrest ih =>
      rw [← collapse_simplify, Consultation.andThen_of_ok hs, ih]

/-- The repetition comes to an end, since every simplification makes the
expression smaller. -/
lemma simplifies_collapse (e : Expr) :
    e.Simplifies f (e.collapse f).asked (e.collapse f).answer := by
  induction hn : e.nodeCount using Nat.strong_induction_on generalizing e with
  | _ n ih =>
      cases hr : e.hasReducible with
      | false =>
          have h := Simplifies.done (f := f) hr
          rw [h.collapse_eq f]
          exact h
      | true =>
          cases hs : (e.simplify f).answer with
          | error failure =>
              have h := Simplifies.failed hr hs
              rw [h.collapse_eq f]
              exact h
          | ok next =>
              have hlt := nodeCount_lt_of_simplify f hr hs
              have h := Simplifies.step hr hs (ih next.nodeCount (hn ▸ hlt) next rfl)
              rw [h.collapse_eq f]
              exact h

/-! ### Repetition and pass agree -/

lemma stopsAtFailure_closeGroup (es : List Expr) : (closeGroup f es).StopsAtFailure f := by
  rw [closeGroup]
  split_ifs with h
  · cases hf : f (group es).text with
    | error d => exact ⟨[], by simp, _, rfl, .refused hf⟩
    | ok value =>
        simp only
        -- an atom is accepted, and anything else is the failure
        split_ifs with hatomic
        · exact ⟨[(group es).text], by simp [hf, hatomic], rfl⟩
        · exact ⟨[], by simp, _, rfl, .notAtomic hf (by simpa using hatomic)⟩
  · exact Consultation.stopsAtFailure_pure f _

mutual

lemma stopsAtFailure_collapse : ∀ e : Expr, (e.collapse f).StopsAtFailure f
  | .atom s => by
      rw [collapse]
      exact Consultation.stopsAtFailure_pure f _
  | .group es => by
      rw [collapse]
      exact (stopsAtFailure_collapseAll es).andThen (stopsAtFailure_closeGroup f)

lemma stopsAtFailure_collapseAll : ∀ es : List Expr, (collapseAll f es).StopsAtFailure f
  | [] => by
      rw [collapseAll]
      exact Consultation.stopsAtFailure_pure f _
  | e :: es => by
      rw [collapseAll]
      refine (stopsAtFailure_collapse e).andThen fun e' => ?_
      exact (stopsAtFailure_collapseAll es).andThen fun es' => Consultation.stopsAtFailure_pure f _

end

/-- The descent of an expression is the repetition, with the expressions on the
way. -/
lemma settle_eq_collapse (e : Expr) :
    (e.settle f).asked = (e.collapse f).asked ∧ (e.settle f).outcome = (e.collapse f).answer := by
  fun_induction settle f e with
  | case1 e h =>
      rw [collapse_of_target?_eq_none f h]
      exact ⟨rfl, rfl⟩
  | case2 e t h consulted failure hv =>
      rw [collapse_of_target? f h, Consultation.andThen_of_error hv]
      exact ⟨rfl, rfl⟩
  | case3 e t h consulted value hv next hlt rest ih =>
      rw [collapse_of_target? f h, Consultation.andThen_of_ok hv]
      exact ⟨by rw [ih.1], ih.2⟩

/-- **Repeated simplification does what one pass does**: it asks the same
questions in the same order and comes to the same end. The questions are those
that the pass asks, about each collapsed group after the ones inside it and from
left to right, up to the first answer that is an error or not an atom; this answer is
what it fails of. -/
theorem simplifies_iff_collapse (e : Expr) :
    (∀ asked outcome, e.Simplifies f asked outcome ↔ e.collapse f = ⟨asked, outcome⟩) ∧
      (e.collapse f).StopsAtFailure f := by
  refine ⟨fun asked outcome => ⟨fun h => h.collapse_eq f, fun h => ?_⟩,
    stopsAtFailure_collapse f e⟩
  have hpass := simplifies_collapse f e
  rwa [h] at hpass

end Expr

end Innermost
