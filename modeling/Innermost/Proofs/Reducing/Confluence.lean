import Innermost.Proofs.Reducing.Collapse

/-!
The order in which groups are reduced does not matter.

The paths to two reducible groups part (`apart_of_isReducible`), so that the reduction of
one leaves the other where it is (`get?_replace_of_apart`), and both may be reduced in
either order (`replace_comm`).

* `Expr.Reduces`: reductions in any order; each time one of the reducible groups is
  chosen, whichever, evaluated and replaced by its value.
* `Reduces.choose`: if some order leads to an expression without a reducible group, so
  do all that begin with a group of one's choice, after as many reductions. That group
  is reduced sooner or later, and its reduction may be moved to the front.
* `reduces_in_any_order` puts this together for the order of simplification.
-/

namespace Innermost

namespace Expr

variable {p : Path} {e g : Expr}

/-! ### Reductions in any order -/

/-- Some of the reducible groups of an expression are reduced one after another: those
at the ends of the paths `chosen`, each in what the ones before it have left. The
`outcome` is what is left in the end, or the failure of the last evaluation. -/
inductive Reduces (f : Evaluator) :
    Expr → (chosen : List Path) → (outcome : Except Failure Expr) → Prop where
  | rest {e : Expr} : Reduces f e [] (.ok e)
  | failed {e g : Expr} {p : Path} {failure : Failure} (hp : e.get? p = some g)
      (hg : g.isReducible = true) (hv : (g.evaluate f).answer = .error failure) :
      Reduces f e [p] (.error failure)
  | step {e g : Expr} {p : Path} {value : String} {chosen : List Path}
      {outcome : Except Failure Expr} (hp : e.get? p = some g) (hg : g.isReducible = true)
      (hv : (g.evaluate f).answer = .ok value)
      (hrest : Reduces f (Reduction.apply ⟨p, value⟩ e) chosen outcome) :
      Reduces f e (p :: chosen) outcome

/-- An expression is simplified `n` times, each time in spite of a reducible group that
is there, and `t`, which has none, is left. -/
inductive SimplifiesIn (f : Evaluator) : (n : Nat) → Expr → (t : Expr) → Prop where
  | done {t : Expr} (h : t.hasReducible = false) : SimplifiesIn f 0 t t
  | step {n : Nat} {e next t : Expr} (h : e.hasReducible = true)
      (hs : (e.simplify f).answer = .ok next) (hrest : SimplifiesIn f n next t) :
      SimplifiesIn f (n + 1) e t

variable {f : Evaluator} {t : Expr} {chosen : List Path} {outcome : Except Failure Expr}

/-- Simplification is one of the orders. -/
lemma SimplifiesIn.reduces {n : Nat} (h : e.SimplifiesIn f n t) :
    t.hasReducible = false ∧ ∃ chosen, e.Reduces f chosen (.ok t) ∧ chosen.length = n := by
  induction h with
  | done h => exact ⟨h, [], .rest, rfl⟩
  | @step n e next t h hs _ ih =>
      obtain ⟨ht, chosen, hchosen, hlen⟩ := ih
      rw [hasReducible_eq_isSome_target?, Option.isSome_iff_exists] at h
      obtain ⟨l, hl⟩ := h
      obtain ⟨hget, hr⟩ := get?_of_target? hl
      rw [simplify_of_target? f hl, Consultation.answer_map] at hs
      cases hv : (l.node.evaluate f).answer with
      | error failure => simp [hv, Except.map] at hs
      | ok value =>
          rw [hv] at hs
          obtain rfl : e.replace l.path (.atom value) = next := Except.ok.inj hs
          exact ⟨ht, l.path :: chosen, .step hget hr hv hchosen, by rw [List.length_cons, hlen]⟩

/-- **Any group may be reduced first.** If some order leads to an expression without a
reducible group, then each reducible group can be evaluated, and what its reduction
leaves leads there with one reduction less. -/
lemma Reduces.choose (h : e.Reduces f chosen (.ok t)) (ht : t.hasReducible = false)
    (hp : e.get? p = some g) (hg : g.isReducible = true) :
    ∃ value chosen', (g.evaluate f).answer = .ok value ∧
      (Reduction.apply ⟨p, value⟩ e).Reduces f chosen' (.ok t) ∧
      chosen.length = chosen'.length + 1 := by
  generalize hout : Except.ok t = outcome at h
  induction h with
  | rest =>
      obtain rfl := Except.ok.inj hout
      exact absurd (hasReducible_of_get? hp hg) (by simp [ht])
  | failed => cases hout
  | @step e k q w chosen _ hq hk hw hrest ih =>
      subst hout
      rcases eq_or_ne p q with rfl | hne
      · obtain rfl : g = k := Option.some.inj (hp.symm.trans hq)
        exact ⟨w, chosen, hw, hrest, rfl⟩
      · have hapart := apart_of_isReducible hp hg hq hk hne
        have hp' : (Reduction.apply ⟨q, w⟩ e).get? p = some g :=
          (get?_replace_of_apart hapart.symm e _).trans hp
        obtain ⟨value, chosen', hv, hchosen', hlen⟩ := ih hp' rfl
        -- the group at `q` is still there, and is reduced behind the one at `p`
        have hq' : (Reduction.apply ⟨p, value⟩ e).get? q = some k :=
          (get?_replace_of_apart hapart e _).trans hq
        have hcomm : Reduction.apply ⟨p, value⟩ (Reduction.apply ⟨q, w⟩ e) =
            Reduction.apply ⟨q, w⟩ (Reduction.apply ⟨p, value⟩ e) :=
          replace_comm hapart.symm e _ _
        rw [hcomm] at hchosen'
        exact ⟨value, q :: chosen', hv, .step hq' hk hw hchosen', by simp [hlen]⟩

/-- If some order leads to an expression without a reducible group, no order fails, and
what any of them leaves leads there with as many reductions as are missing. -/
lemma Reduces.completes (h : e.Reduces f chosen outcome) (ht : t.hasReducible = false)
    {all : List Path} (hall : e.Reduces f all (.ok t)) :
    ∃ e' missing, outcome = .ok e' ∧ e'.Reduces f missing (.ok t) ∧
      all.length = chosen.length + missing.length := by
  induction h generalizing all with
  | @rest e => exact ⟨e, all, rfl, hall, by simp⟩
  | failed hp hg hv =>
      obtain ⟨value, -, hvalue, -⟩ := hall.choose ht hp hg
      cases hv.symm.trans hvalue
  | step hp hg hv _ ih =>
      obtain ⟨value, all', hvalue, hall', hlen⟩ := hall.choose ht hp hg
      obtain rfl := Except.ok.inj (hv.symm.trans hvalue)
      obtain ⟨e', missing, hout, hmissing, hlen'⟩ := ih hall'
      exact ⟨e', missing, hout, hmissing, by rw [List.length_cons]; omega⟩

/-- Where no group is reducible, none is chosen. -/
lemma Reduces.eq_nil (h : e.Reduces f chosen outcome) (he : e.hasReducible = false) :
    chosen = [] := by
  cases h with
  | rest => rfl
  | failed hp hg _ | step hp hg _ _ =>
      exact absurd (hasReducible_of_get? hp hg) (by simp [he])

/-- **The order of reductions does not matter.** If an expression is simplified `n`
times without a failure until `t` is left, then reductions in any order

* do not fail, whichever reducible group is chosen each time;
* find a reducible group until there have been `n` of them, and none after that;
* leave `t` in the end.

For of two reducible groups, the reduction of one leaves the other where it is, and both
may be reduced in either order. -/
theorem reduces_in_any_order (f : Evaluator) (e : Expr) :
    (∀ n t, e.SimplifiesIn f n t → ∀ chosen outcome, e.Reduces f chosen outcome →
      ∃ e', outcome = .ok e' ∧ chosen.length ≤ n ∧
        (e'.hasReducible = false ↔ chosen.length = n) ∧
        (e'.hasReducible = false → e' = t)) ∧
      ∀ p q g k, e.get? p = some g → g.isReducible = true → e.get? q = some k →
        k.isReducible = true → p ≠ q → ∀ v w,
          (Reduction.apply ⟨p, v⟩ e).get? q = some k ∧
            Reduction.apply ⟨q, w⟩ (Reduction.apply ⟨p, v⟩ e) =
              Reduction.apply ⟨p, v⟩ (Reduction.apply ⟨q, w⟩ e) := by
  constructor
  · intro n t h chosen outcome hchosen
    obtain ⟨ht, all, hall, rfl⟩ := h.reduces
    obtain ⟨e', missing, rfl, hmissing, hlen⟩ := hchosen.completes ht hall
    have hend (he' : e'.hasReducible = false) : missing = [] := hmissing.eq_nil he'
    have heq (hnil : missing = []) : e' = t := by
      subst hnil
      cases hmissing
      rfl
    refine ⟨e', rfl, by omega, ⟨fun he' => ?_, fun hall' => ?_⟩, fun he' => heq (hend he')⟩
    · rw [hlen, hend he', List.length_nil, Nat.add_zero]
    · rw [heq (List.eq_nil_of_length_eq_zero (by omega)), ht]
  · intro p q g k hp hg hq hk hne v w
    have hapart := apart_of_isReducible hp hg hq hk hne
    exact ⟨(get?_replace_of_apart hapart e _).trans hq, replace_comm hapart e _ _⟩

/-- From right to left two groups are reduced to what simplification, which goes from
left to right, makes of them. -/
theorem reduces_in_any_order_rightmost :
    let left := group [.atom "a", .atom "b"]
    let right := group [.atom "c", .atom "d"]
    let e := group [left, right]
    e.SimplifiesIn .concat 3 (.atom "abcd") ∧
      e.Reduces .concat [[1], [0], []] (.ok (.atom "abcd")) ∧
      (∀ outcome, e.Reduces .concat [[1], [0], []] outcome → outcome = .ok (.atom "abcd")) ∧
      (e.get? [1] = some right ∧ right.isReducible = true) ∧
      (e.get? [0] = some left ∧ left.isReducible = true) ∧
      (Reduction.apply ⟨[1], "cd"⟩ e).get? [0] = some left := by
  intro left right e
  have hreducible {e : Expr} (h : e.target?.isSome = true) : e.hasReducible = true := by
    rwa [hasReducible_eq_isSome_target?]
  have hdone : (atom "abcd").hasReducible = false := by
    rw [hasReducible_eq_isSome_target?]
    rfl
  have hlast : (group [.atom "ab", .atom "cd"]).SimplifiesIn .concat 1 (.atom "abcd") :=
    .step (hreducible (by decide +kernel)) (by decide +kernel) (.done hdone)
  have hsecond : (group [.atom "ab", right]).SimplifiesIn .concat 2 (.atom "abcd") :=
    .step (hreducible (by decide +kernel)) (by decide +kernel) hlast
  have hn : e.SimplifiesIn .concat 3 (.atom "abcd") :=
    .step (hreducible (by decide +kernel)) (by decide +kernel) hsecond
  have hright : e.get? [1] = some right ∧ right.isReducible = true := ⟨rfl, rfl⟩
  have hleft : e.get? [0] = some left ∧ left.isReducible = true := ⟨rfl, rfl⟩
  have hroot : (group [.atom "ab", .atom "cd"]).Reduces .concat [[]] (.ok (.atom "abcd")) :=
    .step rfl rfl (by decide +kernel) .rest
  have hthen : (group [left, .atom "cd"]).Reduces .concat [[0], []] (.ok (.atom "abcd")) :=
    .step rfl hleft.2 (by decide +kernel) hroot
  have hchosen : e.Reduces .concat [[1], [0], []] (.ok (.atom "abcd")) :=
    .step hright.1 hright.2 (by decide +kernel) hthen
  obtain ⟨horder, hcomm⟩ := reduces_in_any_order .concat e
  refine ⟨hn, hchosen, fun outcome houtcome => ?_, hright, hleft, ?_⟩
  · obtain ⟨e', rfl, -, hiff, heq⟩ := horder 3 _ hn _ outcome houtcome
    rw [heq (hiff.mpr rfl)]
  · exact (hcomm [1] [0] right left hright.1 hright.2 hleft.1 hleft.2 (by decide) "cd" "ab").1

end Expr

end Innermost
