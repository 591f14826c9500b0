import Innermost.Proofs.Tracing.History

/-!
A trace is repeated simplification, and can be taken up again at any line.

* `held_simplifyTimes`: what a trace holds after some steps is what as many
  simplifications make of the expression, except that a bare atom is in
  parentheses again.
* `run_of_le`: a run that did not stop at its limit is the same under every
  greater one.
* `run_of_held`: the rest of a run is the run of the expression that is held
  there.
* `traceRun_refines_simplify` puts them together for the trace of a text.
-/

namespace Innermost

/-- The expression after `k` simplifications, unless one of them fails. -/
def Expr.simplifyTimes (f : Evaluator) : (k : Nat) → Expr → Except Failure Expr
  | 0, e => .ok e
  | k + 1, e => (e.simplify f).answer.bind (simplifyTimes f k)

/-- The questions and steps of a run from the `k`-th step on, and its end. -/
def Run.drop (run : Run) (k : Nat) : Run := ⟨run.steps.drop k, run.asked.drop k, run.outcome⟩

@[simp] lemma Run.drop_zero (run : Run) : run.drop 0 = run := rfl

@[simp] lemma Run.drop_succ_after (run : Run) (step : Step) (text : String) (k : Nat) :
    (run.after [step] [text]).drop (k + 1) = run.drop k := rfl

section Held

variable {ctx : Context} {source : String} {left taken k : Nat} {e x : Expr}

/-! ### Held expressions and simplifications -/

namespace Expr

variable {f : Evaluator} {t : Located} {value : String}

lemma simplifyTimes_succ (ht : e.target? = some t)
    (hv : (t.node.evaluate f).answer = .ok value) (k : Nat) :
    e.simplifyTimes f (k + 1) = (e.replace t.path (.atom value)).simplifyTimes f k := by
  rw [simplifyTimes, simplify_of_target? f ht, Consultation.answer_map, hv]
  rfl

/-- An expression without a target stays as it is. -/
lemma simplifyTimes_of_target?_eq_none (ht : e.target? = none) (k : Nat) :
    e.simplifyTimes f k = .ok e := by
  induction k with
  | zero => rfl
  | succ k ih =>
      rw [simplifyTimes, simplify_of_target?_eq_none f ht]
      exact ih

@[simp] lemma regrouped_regrouped (e : Expr) : e.regrouped.regrouped = e.regrouped := by
  cases e <;> rfl

/-- Parentheses around a bare atom change nothing about its simplifications,
which leave both as they are. -/
lemma simplifyTimes_regrouped {s : Expr} {k : Nat}
    (h : e.regrouped.simplifyTimes f k = .ok s) :
    ∃ s', e.simplifyTimes f k = .ok s' ∧ s.regrouped = s'.regrouped := by
  cases e with
  | group es => exact ⟨s, h, rfl⟩
  | atom text =>
      rw [regrouped, simplifyTimes_of_target?_eq_none (target?_group_atom text)] at h
      refine ⟨.atom text, simplifyTimes_of_target?_eq_none (by rw [target?]) k, ?_⟩
      rw [← Except.ok.inj h]
      rfl

end Expr

/-- The expression held after `k` steps is that after `k` simplifications, as a
group once a step has been taken. -/
lemma held_simplifyTimes (he : e.Readable)
    (hx : (historyFrom ctx source left taken e).held[k]? = some x) :
    ∃ s, e.simplifyTimes ctx.evaluator k = .ok s ∧ x = if k = 0 then s else s.regrouped := by
  revert k x
  refine history_induction (P := fun _ _ e h => ∀ {k x}, h.held[k]? = some x →
    ∃ s, e.simplifyTimes ctx.evaluator k = .ok s ∧ x = if k = 0 then s else s.regrouped)
    ?_ ?_ left taken he
  · intro _ _ e _ _ _ k x hx
    cases k with
    | zero => exact ⟨e, rfl, (Option.some.inj hx).symm⟩
    | succ k => simp at hx
  · intro _ _ e t value rest _ ht hv _ ih k x hx
    cases k with
    | zero => exact ⟨e, rfl, (Option.some.inj hx).symm⟩
    | succ k =>
        obtain ⟨s, hs, hxs⟩ := ih (k := k) (by simpa using hx)
        obtain ⟨s', hs', hregrouped⟩ := Expr.simplifyTimes_regrouped hs
        refine ⟨s', by rw [Expr.simplifyTimes_succ ht hv, hs'], ?_⟩
        rw [if_neg (Nat.succ_ne_zero k), ← hregrouped, hxs]
        split_ifs with hk
        · subst hk
          rw [← Except.ok.inj hs, Expr.regrouped_regrouped]
        · rfl

/-! ### Limits -/

/-- A run that did not stop at its limit is the same under every greater one. -/
lemma run_of_le (he : e.Readable)
    (hout : (historyFrom ctx source left taken e).run.outcome ≠
      .error (unfinished source (taken + left)))
    {left' : Nat} (hle : left ≤ left') (source' : String) (taken' : Nat) :
    (historyFrom ctx source' left' taken' e).run = (historyFrom ctx source left taken e).run := by
  revert hout left' taken'
  refine history_induction (P := fun left taken e h =>
    h.run.outcome ≠ .error (unfinished source (taken + left)) → ∀ {left'}, left ≤ left' →
      ∀ taken', (historyFrom ctx source' left' taken' e).run = h.run) ?_ ?_ left taken he
  · intro left taken e run _ hstop hout left' hle taken'
    cases hstop with
    | done ht => rw [(Stops.done ht).historyFrom_eq]
    | limit ht => exact absurd rfl hout
    | failed ht hv =>
        obtain ⟨left', rfl⟩ := Nat.exists_eq_add_one_of_ne_zero (Nat.ne_zero_of_lt hle)
        rw [(Stops.failed ht hv).historyFrom_eq]
  · intro left taken e t value rest he ht hv _ ih hout left' hle taken'
    obtain ⟨left', rfl⟩ := Nat.exists_eq_add_one_of_ne_zero (Nat.ne_zero_of_lt hle)
    rw [historyFrom_step he ht hv]
    simp only
    rw [ih (by rwa [Nat.add_right_comm, Nat.add_assoc]) (Nat.le_of_succ_le_succ hle)]

/-! ### Resumption -/

/-- The rest of a run is the run of the expression that is held there. -/
lemma run_of_held (he : e.Readable)
    (hx : (historyFrom ctx source left taken e).held[k]? = some x) :
    ∃ left', left = left' + k ∧ (historyFrom ctx source left' (taken + k) x).run =
      (historyFrom ctx source left taken e).run.drop k := by
  revert k x
  refine history_induction (P := fun left taken e h => ∀ {k x}, h.held[k]? = some x →
    ∃ left', left = left' + k ∧
      (historyFrom ctx source left' (taken + k) x).run = h.run.drop k) ?_ ?_ left taken he
  · intro left taken e run _ hstop k x hx
    cases k with
    | zero =>
        obtain rfl : e = x := Option.some.inj hx
        exact ⟨left, rfl, by rw [Nat.add_zero, hstop.historyFrom_eq]; rfl⟩
    | succ k => simp at hx
  · intro left taken e t value rest he ht hv hrest ih k x hx
    cases k with
    | zero =>
        obtain rfl : e = x := Option.some.inj hx
        exact ⟨left + 1, rfl, by rw [Nat.add_zero, historyFrom_step he ht hv, hrest]; rfl⟩
    | succ k =>
        obtain ⟨left', hleft, hrun⟩ := ih (k := k) (by simpa using hx)
        refine ⟨left', by omega, ?_⟩
        rw [show taken + (k + 1) = taken + 1 + k from by omega, hrun]
        rfl

end Held

/-! ### Traces of texts -/

/-- **A trace is repeated simplification, and can be taken up again at any
line.** Of the expressions `x` that the trace of a text holds, one at the start
and one after each of its steps:

* after `k` steps it is what `k` simplifications make of the expression, as a
  group once a step has been taken;
* the line after the next step always reads back, as an expression that is nested
  no deeper and smaller;
* unless the trace stops at its limit, the trace of its text takes the remaining
  steps, asks the remaining questions and ends alike. -/
theorem traceRun_refines_simplify (ctx : Context) {source : String} {e : Expr}
    (h : Expr.parse source = .ok e) :
    (historyOf ctx source).run = traceRun ctx source ∧
      (historyOf ctx source).held.length = (traceRun ctx source).steps.length + 1 ∧
      ∀ k x, (historyOf ctx source).held[k]? = some x →
        (∃ s, e.simplifyTimes ctx.evaluator k = .ok s ∧
          x = if k = 0 then s else s.regrouped) ∧
        (∀ t value, x.target? = some t → (t.node.evaluate ctx.evaluator).answer = .ok value →
          ∃ next, Expr.parse (parenthesised (Reduction.apply ⟨t.path, value⟩ x).text) = .ok next ∧
            next.depth ≤ x.depth ∧ next.nodeCount < x.nodeCount) ∧
        ((traceRun ctx source).outcome ≠ .error (unfinished source ctx.maxSteps) →
          traceRun ctx x.text = (traceRun ctx source).drop k) := by
  have he := Expr.readable_of_parse h
  rw [← run_historyOf, historyOf_of_parse h]
  refine ⟨rfl, length_held he, fun k x hx => ?_⟩
  have hx' := readable_of_mem_held he (List.mem_of_getElem? hx)
  refine ⟨held_simplifyTimes he hx, fun t value ht hv => ?_, fun hout => ?_⟩
  · exact ⟨_, hx'.parse_parenthesised ht (Expr.isWord_of_evaluate hv),
      Expr.depth_regrouped_le ht value, Expr.nodeCount_regrouped_lt ht value⟩
  · obtain ⟨left', hleft, hrun⟩ := run_of_held he hx
    have hrest : (historyFrom ctx source left' (0 + k) x).run.outcome ≠
        .error (unfinished source (0 + k + left')) := by
      rw [hrun, Nat.zero_add, Nat.add_comm k left', ← hleft]
      exact hout
    rw [← run_historyOf, historyOf_of_parse hx'.parse_text,
      run_of_le hx' hrest (by omega) x.text 0, hrun]

/-- Running words together step by step may begin at the second line. -/
theorem traceRun_refines_simplify_concat :
    Expr.parse "((a b) c)" = .ok (.group [.group [.atom "a", .atom "b"], .atom "c"]) ∧
      (traceRun { evaluator := .concat } "((a b) c)").outcome ≠
        .error (unfinished "((a b) c)" 1024) ∧
      traceRun { evaluator := .concat } "(ab c)" =
        (traceRun { evaluator := .concat } "((a b) c)").drop 1 :=
  have hparse : Expr.parse "((a b) c)" =
      .ok (.group [.group [.atom "a", .atom "b"], .atom "c"]) := by decide +kernel
  have hout : (traceRun { evaluator := .concat } "((a b) c)").outcome ≠
      .error (unfinished "((a b) c)" 1024) := by decide +kernel
  have hheld : (historyOf { evaluator := .concat } "((a b) c)").held[1]? =
      some (.group [.atom "ab", .atom "c"]) := by decide +kernel
  ⟨hparse, hout, ((traceRun_refines_simplify _ hparse).2.2 1 _ hheld).2.2 hout⟩

end Innermost
