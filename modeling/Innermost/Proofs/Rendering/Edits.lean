import Innermost.Proofs.Grammar.Depth
import Innermost.Proofs.Tracing.Rereading

/-!
Expressions stay readable while they are edited, however they are edited.

* `Edit`: what can be done to the expression at hand. `Edit.Admissible` says what may be put
  into it: an expression that was read, or an atom as an evaluator may answer with.
* `Edit.legible_apply`: an admissible edit leaves all atoms words, also if the expression becomes
  a bare atom by it, and also with an evaluator that fails. So does any sequence of them
  (`legible_edited`).
* `Edit.depth_apply_le`: only a replacement makes an expression deeper.
* `parse_text_edited`: so the text of an edited expression is refused for its depth, or is read
  as the expression.
-/

namespace Innermost

/-! ### Edits -/

/-- A change of the expression at hand. -/
inductive Edit where
  /-- Goes on with the node at the end of a path. -/
  | focus (path : Path)
  /-- Puts another expression in place of the node at the end of a path. -/
  | replace (path : Path) (new : Expr)
  /-- Puts an atom in place of the node at the end of a path. -/
  | reduce (reduction : Reduction)
  /-- Reduces the target. -/
  | simplify (f : Evaluator)

/-- The expression after an edit. A path that leads nowhere and an evaluation that fails leave it
as it is. -/
def Edit.apply (e : Expr) : Edit → Expr
  | .focus p => (e.get? p).getD e
  | .replace p new => e.replace p new
  | .reduce r => r.apply e
  | .simplify f =>
      match (e.simplify f).answer with
      | .ok next => next
      | .error _ => e

/-- The expression after several edits. -/
def Expr.edited (e : Expr) (edits : List Edit) : Expr := edits.foldl Edit.apply e

/-- Whether an edit puts in only what has been read from a text, or can be read as an atom. -/
def Edit.Admissible : Edit → Prop
  | .focus _ => True
  | .replace _ new => ∃ text, Expr.parse text = .ok new
  | .reduce r => isAtomic r.value = true
  | .simplify _ => True

/-- Whether an edit puts in an expression of any depth. -/
def Edit.isReplacement : Edit → Bool
  | .replace _ _ => true
  | _ => false

/-! ### One edit -/

namespace Expr

/-- A simplification that succeeds puts in at most one atom, and it is a word. -/
lemma eq_or_exists_replace_of_simplify {f : Evaluator} {e next : Expr}
    (h : (e.simplify f).answer = .ok next) :
    next = e ∨ ∃ p value, IsWord value ∧ next = e.replace p (.atom value) := by
  rw [simplify, Reduction.find] at h
  cases ht : e.target? with
  | none =>
      rw [ht] at h
      exact .inl (Except.ok.inj h).symm
  | some t =>
      rw [ht] at h
      cases hv : (t.node.evaluate f).answer with
      | error failure => simp [hv, Except.map] at h
      | ok value =>
          simp only [Consultation.answer_map, hv, Except.map] at h
          exact .inr ⟨t.path, value, isWord_of_evaluate hv, (Except.ok.inj h).symm⟩

lemma depth_le_depthAll {d : Expr} {es : List Expr} (h : d ∈ es) : d.depth ≤ depthAll es := by
  induction es with
  | nil => simp at h
  | cons e es ih =>
      rw [depthAll_cons]
      rcases List.mem_cons.mp h with rfl | h
      · exact le_max_left _ _
      · exact (ih h).trans (le_max_right _ _)

/-- No node is deeper than the expression around it. -/
lemma depth_le_of_get? {e d : Expr} {p : Path} (h : e.get? p = some d) : d.depth ≤ e.depth := by
  refine of_get? (P := fun d => d.depth ≤ e.depth) (fun {es} hes d hd => ?_) le_rfl h
  have hle := depth_le_depthAll hd
  rw [depth_group] at hes
  omega

end Expr

namespace Edit

variable {e : Expr} {x : Edit}

/-- **An admissible edit leaves all atoms words.** -/
lemma legible_apply (he : e.Legible) (hx : x.Admissible) : (x.apply e).Legible := by
  cases x with
  | focus p =>
      rw [apply]
      cases hp : e.get? p with
      | none => exact he
      | some d => exact he.of_get? hp
  | replace p new =>
      obtain ⟨text, htext⟩ := hx
      exact he.replace (Expr.legible_of_parse htext) p
  | reduce r => exact he.replace (.atom (isWord_of_isAtomic hx)) r.path
  | simplify f =>
      rw [apply]
      cases hnext : (e.simplify f).answer with
      | error failure => exact he
      | ok next =>
          obtain rfl | ⟨p, value, hword, rfl⟩ := Expr.eq_or_exists_replace_of_simplify hnext
          · exact he
          · exact he.replace (.atom hword) p

/-- An edit that is no replacement makes nothing deeper. -/
lemma depth_apply_le (hx : x.isReplacement = false) : (x.apply e).depth ≤ e.depth := by
  cases x with
  | replace p new => cases hx
  | focus p =>
      rw [apply]
      cases hp : e.get? p with
      | none => exact le_rfl
      | some d => exact Expr.depth_le_of_get? hp
  | reduce r => exact Expr.depth_replace_atom_le e r.path r.value
  | simplify f =>
      rw [apply]
      cases hnext : (e.simplify f).answer with
      | error failure => exact le_rfl
      | ok next =>
          obtain rfl | ⟨p, value, -, rfl⟩ := Expr.eq_or_exists_replace_of_simplify hnext
          · exact le_rfl
          · exact Expr.depth_replace_atom_le e p value

end Edit

/-! ### Sequences of edits -/

namespace Expr

variable {e : Expr} {edits : List Edit}

/-- So do any number of admissible edits. -/
lemma legible_edited (he : e.Legible) (hedits : ∀ x ∈ edits, x.Admissible) :
    (e.edited edits).Legible := by
  induction edits generalizing e with
  | nil => exact he
  | cons x edits ih =>
      have hx := Edit.legible_apply he (hedits x List.mem_cons_self)
      exact ih hx fun y hy => hedits y (.tail _ hy)

lemma depth_edited_le (hedits : ∀ x ∈ edits, x.isReplacement = false) :
    (e.edited edits).depth ≤ e.depth := by
  induction edits generalizing e with
  | nil => exact le_rfl
  | cons x edits ih =>
      have hx := Edit.depth_apply_le (e := e) (hedits x List.mem_cons_self)
      exact (ih fun y hy => hedits y (.tail _ hy)).trans hx

/-- **An edited expression is read back from its text unless it is nested too deeply**, and is
refused for its depth, and for nothing else, if it is. This holds of every expression that was
read from a text, after any sequence of admissible edits. Only replacements can make it too
deep. -/
theorem parse_text_edited {source : String} (h : parse source = .ok e)
    (hedits : ∀ x ∈ edits, x.Admissible) :
    ((e.edited edits).depth ≤ maxDepth → parse (e.edited edits).text = .ok (e.edited edits)) ∧
      (maxDepth < (e.edited edits).depth →
        ∃ place, parse (e.edited edits).text = .error ⟨.read .tooDeep, [place]⟩) ∧
      ((∀ x ∈ edits, x.isReplacement = false) → (e.edited edits).depth ≤ maxDepth) := by
  have he := readable_of_parse h
  have hlegible := legible_edited he.legible hedits
  exact ⟨hlegible.parse_text, hlegible.exists_tooDeep,
    fun hall => (depth_edited_le hall).trans he.depth_le⟩

/-- Towers of groups are put on top of each other. Four of them are as deep as may be, the fifth
is too much, and without the first one the expression is read again. Neither an evaluation that
fails nor a bare atom at the root does any harm. -/
theorem parse_text_edited_tower :
    let tower (n : Nat) : Expr := (fun e => .group [e, .atom "b"])^[n] (.atom "a(")
    let raise (k : Nat) : List Edit := .simplify .echo ::
      (List.range k).map fun i => .replace (List.replicate (64 * (i + 1)) 0) (tower 64)
    let lower : List Edit := raise 4 ++ [.focus (List.replicate 64 0), .simplify (.const "x")]
    let clear : List Edit := lower ++ [.reduce ⟨[], "c"⟩]
    parse (tower 64).text = .ok (tower 64) ∧
      parse ((tower 64).edited (raise 3)).text = .ok (tower 256) ∧
      (∃ place, parse ((tower 64).edited (raise 4)).text = .error ⟨.read .tooDeep, [place]⟩) ∧
      parse ((tower 64).edited lower).text = .ok ((tower 64).edited lower) ∧
      parse ((tower 64).edited clear).text = .ok (.atom "c") := by
  intro tower raise lower clear
  have hword : IsWord "a(" ∧ IsWord "b" :=
    ⟨by simp [isWord_iff, Reading.isAtomChar, isBlank], isWord_of_isAtomic (by decide)⟩
  have hlegible (n : Nat) : (tower n).Legible := by
    induction n with
    | zero => exact .atom hword.1
    | succ n ih =>
        have hsucc : tower (n + 1) = .group [tower n, .atom "b"] :=
          Function.iterate_succ_apply' _ _ _
        rw [hsucc]
        simpa [legible_group_iff, legible_atom_iff] using ⟨ih, hword.2⟩
  have hparse : parse (tower 64).text = .ok (tower 64) :=
    (hlegible 64).parse_text (by decide +kernel)
  have hraise (k : Nat) : ∀ x ∈ raise k, x.Admissible := by
    simp only [raise, List.forall_mem_cons, List.forall_mem_map]
    exact ⟨trivial, fun i _ => ⟨_, hparse⟩⟩
  have hlower : ∀ x ∈ lower, x.Admissible := by
    simp only [lower, List.forall_mem_append, List.forall_mem_cons]
    exact ⟨hraise 4, trivial, trivial, by simp⟩
  have hclear : ∀ x ∈ clear, x.Admissible := by
    have hatomic : isAtomic "c" = true := by decide
    simp only [clear, List.forall_mem_append, List.forall_mem_cons]
    exact ⟨hlower, hatomic, by simp⟩
  have hthree : (tower 64).edited (raise 3) = tower 256 := by decide +kernel
  have hfour : maxDepth < ((tower 64).edited (raise 4)).depth := by decide +kernel
  have hlowered : ((tower 64).edited lower).depth ≤ maxDepth := by decide +kernel
  have hcleared : (tower 64).edited clear = .atom "c" := by decide +kernel
  refine ⟨hparse, ?_, (parse_text_edited hparse (hraise 4)).2.1 hfour,
    (parse_text_edited hparse hlower).1 hlowered, ?_⟩
  · have hread := (parse_text_edited hparse (hraise 3)).1
    rw [hthree] at hread ⊢
    exact hread (by decide +kernel)
  · have hread := (parse_text_edited hparse hclear).1
    rw [hcleared] at hread ⊢
    exact hread (by decide)

end Expr

end Innermost
