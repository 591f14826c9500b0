import Innermost.Proofs.Reducing.Collapse

/-!
One simplification is one reduction.

* `simplify_eq_of_target?`: the evaluator is asked once, about the target, and all that follows
  depends on what it answers.
* `Expr.ReducedAt`: what one reduction leaves. The value is at the end of the path to the
  target, beside the path nothing has changed, and as many nodes are missing as the target had
  children (`reducedAt_target`). These are all atoms, so there are no more nodes in it than
  these and the target itself (`nodeCount_of_isReducible`).
* `simplify_reduces_target` puts this together for each kind of answer.
-/

namespace Innermost.Expr

variable {e : Expr} {t : Located}

/-! ### What a reduction leaves -/

/-- The expression `next` is left of `e` when the group `t` of it has been replaced by an
atom. -/
structure ReducedAt (e : Expr) (t : Located) (value : String) (next : Expr) : Prop where
  /-- In place of the group there is the atom. -/
  get?_path : next.get? t.path = some (.atom value)
  /-- The nodes above the group hold the atom in its place. -/
  get?_above : ∀ q r, q ++ r = t.path → next.get? q = (e.get? q).map (·.replace r (.atom value))
  /-- All other nodes are as before, and there are none where there were none. -/
  get?_beside : ∀ q, ¬ q <+: t.path → ¬ t.path <+: q → next.get? q = e.get? q
  /-- The children of the group are gone. -/
  nodeCount_add : next.nodeCount + t.node.children.length = e.nodeCount

lemma nodeCountAll_of_all_isAtom {es : List Expr} (h : es.all isAtom) :
    nodeCountAll es = es.length := by
  induction es with
  | nil => simp
  | cons e es ih =>
      rw [List.all_cons, Bool.and_eq_true] at h
      cases e with
      | group ds => exact absurd h.1 (by simp [isAtom])
      | atom s => rw [nodeCountAll_cons, ih h.2, nodeCount_atom, List.length_cons, Nat.add_comm]

/-- A reducible group has no nodes but itself and its children. -/
lemma nodeCount_of_isReducible (h : e.isReducible = true) :
    e.nodeCount = 1 + e.children.length := by
  cases e with
  | atom s => simp [isReducible, isDeepest] at h
  | group es =>
      rw [nodeCount_group, nodeCountAll_of_all_isAtom (isReducible_group_iff.mp h).1, children]

/-- **The reduction of the target leaves all but the target as it is.** -/
theorem reducedAt_target (ht : e.target? = some t) (value : String) :
    e.ReducedAt t value (e.replace t.path (.atom value)) where
  get?_path := get?_replace (get?_of_target? ht).1 (.atom value)
  get?_above q r hqr := by rw [← hqr, get?_replace_append]
  get?_beside q hq ht := get?_replace_of_apart (Path.apart_iff.mpr ⟨ht, hq⟩) e (.atom value)
  nodeCount_add := by
    obtain ⟨hget, hr⟩ := get?_of_target? ht
    have hcount := nodeCount_replace hget (.atom value)
    rw [nodeCount_of_isReducible hr, nodeCount_atom] at hcount
    omega

/-! ### One call -/

/-- The evaluator is asked about the target only, and its answer decides. -/
lemma simplify_eq_of_target? (f : Evaluator) (ht : e.target? = some t) :
    e.simplify f = ⟨[t.node.text], (acceptAnswer t.node.text (f t.node.text)).map
      fun value => e.replace t.path (.atom value)⟩ := by
  rw [simplify_of_target? f ht, evaluate_of_isReducible f (get?_of_target? ht).2]
  rfl

/-- **A simplification is one reduction, or none.**

* An expression without a reducible group is left as it is, and nothing is asked.
* Otherwise the evaluator is asked once, about the text of the first reducible group, which
  has at least two children. If it answers with an atom, this atom takes the place of the
  group. If it answers with anything else, or fails, so does the simplification. -/
theorem simplify_reduces_target (f : Evaluator) (e : Expr) :
    (e.hasReducible = false → e.simplify f = .pure (.ok e)) ∧
      (e.hasReducible = true → ∃ t, e.target? = some t ∧ e.get? t.path = some t.node ∧
        2 ≤ t.node.children.length ∧ (e.simplify f).asked = [t.node.text] ∧
        (∀ value, f t.node.text = .ok value → isAtomic value = true →
          ∃ next, (e.simplify f).answer = .ok next ∧ e.ReducedAt t value next) ∧
        (∀ value, f t.node.text = .ok value → isAtomic value = false →
          (e.simplify f).answer = .error ⟨.group, t.node.text,
            ⟨.reduction (.notAtomic value), [⟨0, t.node.text.utf8ByteSize⟩]⟩⟩) ∧
        ∀ d, f t.node.text = .error d →
          (e.simplify f).answer = .error ⟨.group, t.node.text, d⟩) := by
  rw [hasReducible_eq_isSome_target?]
  cases ht : e.target? with
  | none => exact ⟨fun _ => simplify_of_target?_eq_none f ht, fun h => absurd h (by simp)⟩
  | some t =>
      refine ⟨fun h => absurd h (by simp), fun _ => ⟨t, rfl, ?_⟩⟩
      obtain ⟨hget, hr⟩ := get?_of_target? ht
      have hcount := nodeCount_of_isReducible hr
      have htwo := two_lt_nodeCount_of_isReducible hr
      rw [simplify_eq_of_target? f ht]
      refine ⟨hget, by omega, rfl, fun value hf hatomic => ?_, fun value hf hatomic => ?_,
        fun d hf => ?_⟩
      · refine ⟨e.replace t.path (.atom value), ?_, reducedAt_target ht value⟩
        rw [hf, acceptAnswer, if_pos hatomic]
        rfl
      · rw [hf, acceptAnswer, if_neg (by simp [hatomic])]
        rfl
      · rw [hf, acceptAnswer]
        rfl

/-- A group deep inside is replaced by an atom, or cannot be: the answer is no atom, or there
is none. A single atom in parentheses is left alone. -/
theorem simplify_reduces_target_deep :
    let ab := group [.atom "a", .atom "b"]
    let x := group [.atom "x"]
    let e := group [x, .group [.group [], ab], .atom "c"]
    let d := LiteralFault.overflow.at [⟨1, 4⟩]
    (x.hasReducible = false ∧ x.simplify .echo = .pure (.ok x)) ∧
    (e.hasReducible = true ∧ (e.simplify .concat).asked = ["(a b)"] ∧
      ∃ next, (e.simplify .concat).answer = .ok next ∧ e.ReducedAt ⟨[1, 1], ab⟩ "ab" next) ∧
    (e.simplify .echo).answer =
      .error ⟨.group, "(a b)", ⟨.reduction (.notAtomic "(a b)"), [⟨0, 5⟩]⟩⟩ ∧
    (e.simplify (.fail d)).answer = .error ⟨.group, "(a b)", d⟩ := by
  intro ab x e d
  have hx : x.hasReducible = false := by
    rw [hasReducible_eq_isSome_target?]
    rfl
  have ht : e.target? = some ⟨[1, 1], ab⟩ := by decide +kernel
  have hr : e.hasReducible = true := by
    rw [hasReducible_eq_isSome_target?, ht]
    rfl
  have htext : ab.text = "(a b)" := by decide +kernel
  obtain ⟨t, ht₁, -, -, hasked, hatom, -⟩ := (simplify_reduces_target .concat e).2 hr
  obtain rfl := Option.some.inj (ht.symm.trans ht₁)
  obtain ⟨t, ht₂, -, -, -, -, hnoAtom, -⟩ := (simplify_reduces_target .echo e).2 hr
  obtain rfl := Option.some.inj (ht.symm.trans ht₂)
  obtain ⟨t, ht₃, -, -, -, -, -, hfails⟩ := (simplify_reduces_target (.fail d) e).2 hr
  obtain rfl := Option.some.inj (ht.symm.trans ht₃)
  rw [htext] at hasked hatom hnoAtom hfails
  exact ⟨⟨hx, (simplify_reduces_target .echo x).1 hx⟩,
    ⟨hr, hasked, hatom "ab" (by decide +kernel) (by decide)⟩,
    hnoAtom "(a b)" rfl (by decide), hfails d rfl⟩

end Innermost.Expr
