import Innermost.Rendering
import Innermost.Proofs.Grammar.Acceptance
import Innermost.Proofs.Reducing.Questions

/-!
The line that a reduction leaves reads back.

* `Expr.Readable`: the expressions that their own text is read as. What is read
  from a text is one of them (`readable_of_parse`), and a reduction leaves one of
  them (`Readable.regrouped_replace`), because an evaluator's answer is accepted
  only if it can stand for an atom (`isWord_of_evaluate`).
* `Expr.regrouped`: the expression that the line after a reduction spells. It is
  the reduced expression, in parentheses if nothing but an atom is left
  (`parse_parenthesised`). It is smaller than the expression before the reduction
  and nested no deeper (`nodeCount_regrouped_lt`, `depth_regrouped_le`).
-/

namespace Innermost

/-- What an evaluator may answer can stand for an atom. -/
lemma isWord_of_isAtomic {text : String} (h : isAtomic text = true) : IsWord text := by
  simp only [isAtomic, Bool.and_eq_true, Bool.not_eq_true', List.isEmpty_eq_false_iff,
    List.all_eq_true, decide_eq_true_eq] at h
  obtain ⟨hne, hall⟩ := h
  refine isWord_iff.mpr ⟨hne, fun c hc => ?_, fun hhead => ?_⟩
  · obtain ⟨⟨hb, -⟩, hc'⟩ := hall c hc
    simp [Reading.isAtomChar, hb, hc']
  · exact absurd rfl (hall _ (List.mem_of_head? hhead)).1.2

namespace Expr

/-- A group evaluates only to what an evaluator may answer. -/
lemma isAtomic_of_evaluate {f : Evaluator} {e : Expr} {value : String}
    (h : (e.evaluate f).answer = .ok value) : isAtomic value = true := by
  rw [evaluate] at h
  split_ifs at h
  · exact (acceptAnswer_eq_ok_iff.mp h).2
  · simp at h

/-- A group evaluates only to what can stand for an atom. -/
lemma isWord_of_evaluate {f : Evaluator} {e : Expr} {value : String}
    (h : (e.evaluate f).answer = .ok value) : IsWord value :=
  isWord_of_isAtomic (isAtomic_of_evaluate h)

/-! ### Legible expressions and their nodes -/

/-- What every child inherits holds of every node. -/
lemma of_get? {P : Expr → Prop} (hP : ∀ {es}, P (group es) → ∀ e ∈ es, P e) {e n : Expr} {p : Path}
    (h : P e) (hn : e.get? p = some n) : P n := by
  induction p generalizing e with
  | nil =>
      obtain rfl : e = n := by simpa using hn
      exact h
  | cons i p ih =>
      cases e with
      | atom s => simp at hn
      | group es =>
          simp only [get?_group_cons, Option.bind_eq_some_iff] at hn
          obtain ⟨d, hd, hn⟩ := hn
          exact ih (hP h d (List.mem_of_getElem? hd)) hn

/-- The nodes of a legible expression are legible. -/
lemma Legible.of_get? {e n : Expr} {p : Path} (he : e.Legible) (hn : e.get? p = some n) :
    n.Legible :=
  Expr.of_get? legible_group_iff.mp he hn

lemma forall_mem_modify {P : Expr → Prop} {g : Expr → Expr} (hg : ∀ e, P e → P (g e))
    {es : List Expr} (h : ∀ e ∈ es, P e) (i : Nat) : ∀ e ∈ es.modify i g, P e := by
  induction es generalizing i with
  | nil => simp
  | cons e es ih =>
      have he := h e List.mem_cons_self
      have hes : ∀ d ∈ es, P d := fun d hd => h d (.tail _ hd)
      cases i with
      | zero =>
          rw [List.modify_zero_cons, List.forall_mem_cons]
          exact ⟨hg e he, hes⟩
      | succ i =>
          rw [List.modify_succ_cons, List.forall_mem_cons]
          exact ⟨he, ih hes i⟩

lemma Legible.replace {e new : Expr} (h : e.Legible) (hnew : new.Legible) (p : Path) :
    (e.replace p new).Legible := by
  induction p generalizing e with
  | nil => rwa [replace_nil]
  | cons i p ih =>
      cases e with
      | atom s => exact h
      | group es =>
          rw [replace_group_cons]
          exact .group (forall_mem_modify (fun _ hd => ih hd) (legible_group_iff.mp h) i)

lemma depthAll_modify_le {g : Expr → Expr} (h : ∀ e, (g e).depth ≤ e.depth) (es : List Expr)
    (i : Nat) : depthAll (es.modify i g) ≤ depthAll es := by
  induction es generalizing i with
  | nil => simp
  | cons e es ih =>
      cases i with
      | zero =>
          have := h e
          rw [List.modify_zero_cons, depthAll_cons, depthAll_cons]
          omega
      | succ i =>
          have := ih i
          rw [List.modify_succ_cons, depthAll_cons, depthAll_cons]
          omega

/-- An atom in place of a node makes nothing deeper. -/
lemma depth_replace_atom_le (e : Expr) (p : Path) (value : String) :
    (e.replace p (.atom value)).depth ≤ e.depth := by
  induction p generalizing e with
  | nil => simp
  | cons i p ih =>
      cases e with
      | atom s => simp
      | group es =>
          have := depthAll_modify_le ih es i
          rw [replace_group_cons, depth_group, depth_group]
          omega

/-! ### The line after a reduction -/

/-- Expressions that can be read back from their text. -/
structure Readable (e : Expr) : Prop where
  legible : e.Legible
  depth_le : e.depth ≤ maxDepth

lemma Readable.parse_text {e : Expr} (h : e.Readable) : parse e.text = .ok e :=
  h.legible.parse_text h.depth_le

lemma readable_of_parse {text : String} {e : Expr} (h : parse text = .ok e) : e.Readable :=
  ⟨legible_of_parse h, (spelledBy_of_parse h).1⟩

/-- The expression as a group: a bare atom becomes the only child of one. -/
def regrouped : Expr → Expr
  | .atom text => .group [.atom text]
  | .group children => .group children

lemma Legible.regrouped {e : Expr} (h : e.Legible) : e.regrouped.Legible := by
  cases e with
  | atom s => exact .group fun e he => by rwa [List.mem_singleton.mp he]
  | group es => exact h

/-- The parentheses around a line are those of a group. -/
lemma parenthesised_text {e : Expr} (h : e.Legible) :
    parenthesised e.text = e.regrouped.text := by
  cases e with
  | atom s =>
      rw [parenthesised, text_atom, if_neg (legible_atom_iff.mp h).notOpening, regrouped,
        text_group]
      simp
  | group es =>
      rw [parenthesised, if_pos, regrouped]
      rw [text_group]
      simp

section Reduced

variable {e : Expr} {t : Located}

/-- A reduction makes the line shorter by at least one node, also if parentheses
are put around what is left. -/
lemma nodeCount_regrouped_lt (ht : e.target? = some t) (value : String) :
    (e.replace t.path (.atom value)).regrouped.nodeCount < e.nodeCount := by
  obtain ⟨hget, hr⟩ := get?_of_target? ht
  have hcount := nodeCount_replace hget (.atom value)
  have hnode := two_lt_nodeCount_of_isReducible hr
  cases hs : e.replace t.path (.atom value) with
  | atom s =>
      rw [hs] at hcount
      simp only [nodeCount_atom] at hcount
      simp only [regrouped, nodeCount_group, nodeCountAll_cons, nodeCountAll_nil, nodeCount_atom]
      omega
  | group es =>
      rw [hs, nodeCount_atom] at hcount
      rw [regrouped]
      omega

lemma depth_regrouped_le (ht : e.target? = some t) (value : String) :
    (e.replace t.path (.atom value)).regrouped.depth ≤ e.depth := by
  have hle := depth_replace_atom_le e t.path value
  cases hs : e.replace t.path (.atom value) with
  | atom s =>
      cases e with
      | atom s' => simp [target?] at ht
      | group es => simp [regrouped]
  | group es => rwa [regrouped, ← hs]

/-- What a reduction leaves can be read back. -/
lemma Readable.regrouped_replace {value : String} (h : e.Readable) (ht : e.target? = some t)
    (hv : IsWord value) :
    (e.replace t.path (.atom value)).regrouped.Readable :=
  ⟨(h.legible.replace (.atom hv) t.path).regrouped, (depth_regrouped_le ht value).trans h.depth_le⟩

/-- The line after a reduction is read as what the reduction leaves. -/
lemma Readable.parse_parenthesised {value : String} (h : e.Readable) (ht : e.target? = some t)
    (hv : IsWord value) :
    parse (parenthesised (e.replace t.path (.atom value)).text) =
      .ok (e.replace t.path (.atom value)).regrouped := by
  rw [parenthesised_text (h.legible.replace (.atom hv) t.path)]
  exact (h.regrouped_replace ht hv).parse_text

end Reduced

end Expr

end Innermost
