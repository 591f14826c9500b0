import Innermost.Proofs.Reducing.Targets

/-!
The groups that are reduced sooner or later.

A group of fewer than two children is never reduced, and so no group around it can
come to hold only atoms. The other groups are live: they and all groups inside them
have at least two children.

* `Expr.Wide`: the expressions all of whose groups have at least two children.
* `Expr.liveCount` counts the live groups among the nodes.
* `liveCount_replace_target`: a reduction takes one live group away and leaves the
  others live and the rest not, since the group that it takes away was wide, and so
  is the atom in its place (`wide_replace_iff`).
* `liveCount_eq_zero_of_target?_eq_none`: as long as there is a live group, there is
  a target.
-/

namespace Innermost.Expr

/-! ### Wide expressions -/

/-- Expressions all of whose groups have at least two children. -/
inductive Wide : Expr → Prop where
  | atom {text : String} : Wide (.atom text)
  | group {children : List Expr} (hlen : 2 ≤ children.length) (h : ∀ e ∈ children, Wide e) :
      Wide (.group children)

lemma wide_group_iff {es : List Expr} : (group es).Wide ↔ 2 ≤ es.length ∧ ∀ e ∈ es, e.Wide :=
  ⟨fun h => by cases h with | group hlen hes => exact ⟨hlen, hes⟩, fun h => .group h.1 h.2⟩

/-- An expression is wide exactly if all groups among its nodes have at least two
children. -/
lemma wide_iff {e : Expr} : e.Wide ↔ ∀ n ∈ e.nodes, n.isAtom = true ∨ 2 ≤ n.children.length := by
  induction e using ind with
  | atom s => simp [nodes, isAtom, Wide.atom]
  | group es ih =>
      rw [wide_group_iff, nodes, List.forall_mem_cons]
      refine and_congr (by simp [isAtom, children]) ?_
      constructor
      · intro h n hn
        obtain ⟨e, he, hn⟩ := mem_nodesAll.mp hn
        exact (ih e he).mp (h e he) n hn
      · exact fun h e he => (ih e he).mpr fun n hn => h n (mem_nodesAll.mpr ⟨e, he, hn⟩)

instance : DecidablePred Wide := fun _ => decidable_of_iff _ wide_iff.symm

/-- A child is exchanged between the children before it and those after it. -/
lemma exists_modify_eq {es : List Expr} {i : Nat} {d : Expr} (hd : es[i]? = some d)
    (g : Expr → Expr) :
    ∃ before after, es = before ++ d :: after ∧ es.modify i g = before ++ g d :: after := by
  obtain ⟨hi, rfl⟩ := List.getElem?_eq_some_iff.mp hd
  refine ⟨es.take i, es.drop (i + 1), by simp, ?_⟩
  rw [List.modify_eq_take_cons_drop hi]

/-- A node exchanged for another makes no difference to the groups around it, if
both are wide or neither is. -/
lemma wide_replace_iff {e old new : Expr} {p : Path} (h : e.get? p = some old)
    (hwide : new.Wide ↔ old.Wide) : (e.replace p new).Wide ↔ e.Wide := by
  induction p generalizing e with
  | nil =>
      rw [get?_nil] at h
      rwa [replace_nil, Option.some.inj h]
  | cons i p ih =>
      cases e with
      | atom s => simp at h
      | group es =>
          rw [get?_group_cons, Option.bind_eq_some_iff] at h
          obtain ⟨d, hd, hold⟩ := h
          obtain ⟨before, after, hes, hmodify⟩ := exists_modify_eq hd (replace · p new)
          rw [replace_group_cons, wide_group_iff, wide_group_iff, List.length_modify, hmodify, hes]
          simp only [List.forall_mem_append, List.forall_mem_cons, ih hold]

/-- The wide groups are not left alone: somewhere inside them there is a target. -/
lemma Wide.target?_ne_none {e : Expr} (h : e.Wide) (hgroup : e.isAtom = false) :
    e.target? ≠ none := by
  induction e using ind with
  | atom s => exact absurd hgroup (by simp [isAtom])
  | group es ih =>
      obtain ⟨hlen, hes⟩ := wide_group_iff.mp h
      intro hnone
      obtain ⟨hr, hchildren⟩ := target?_group_eq_none_iff.mp hnone
      -- the group itself is not reducible, so one of its children is a group
      have hatoms : ¬ es.all isAtom = true := by
        intro hall
        rw [isReducible_group_iff.mpr ⟨hall, hlen⟩] at hr
        cases hr
      obtain ⟨d, hd, hdgroup⟩ : ∃ d ∈ es, d.isAtom = false := by simpa using hatoms
      exact ih d hd (hes d hd) hdgroup (hchildren d hd)

/-! ### Live groups -/

/-- Whether a node is a group that has at least two children, as have all groups
inside it. -/
def isLive (e : Expr) : Bool := !e.isAtom && decide e.Wide

/-- The number of live groups of an expression. -/
def liveCount (e : Expr) : Nat := e.preOrder.countP isLive

@[simp] lemma liveCount_atom (s : String) : (atom s).liveCount = 0 := by
  rw [liveCount, preOrder_eq_nodes]
  simp [nodes, isLive, isAtom]

/-- The live groups are those of the children, and the group itself if it is
wide. -/
lemma liveCount_group (es : List Expr) :
    (group es).liveCount = (es.map liveCount).sum + if (group es).Wide then 1 else 0 := by
  have hcount : List.countP isLive ∘ nodes = liveCount := by
    funext e
    rw [Function.comp_apply, liveCount, preOrder_eq_nodes]
  rw [liveCount, preOrder_eq_nodes, nodes, List.countP_cons, nodesAll_eq, List.countP_flatMap,
    hcount]
  simp [isLive, isAtom]

/-- A node exchanged for another changes the number of live groups by as much as
its own, if both are wide or neither is. -/
lemma liveCount_replace {e old new : Expr} {p : Path} (h : e.get? p = some old)
    (hwide : new.Wide ↔ old.Wide) :
    (e.replace p new).liveCount + old.liveCount = e.liveCount + new.liveCount := by
  induction p generalizing e with
  | nil =>
      rw [get?_nil] at h
      rw [replace_nil, Option.some.inj h, Nat.add_comm]
  | cons i p ih =>
      cases e with
      | atom s => simp at h
      | group es =>
          -- the group is as live as before, and so are the children beside the path
          have hsame := wide_replace_iff h hwide
          rw [get?_group_cons, Option.bind_eq_some_iff] at h
          obtain ⟨d, hd, hold⟩ := h
          obtain ⟨before, after, hes, hmodify⟩ := exists_modify_eq hd (replace · p new)
          have hd' := ih hold
          rw [replace_group_cons] at hsame ⊢
          simp only [liveCount_group, hsame]
          rw [hmodify, hes]
          simp only [List.map_append, List.map_cons, List.sum_append, List.sum_cons]
          omega

/-! ### Reductions -/

/-- A reducible group is wide. -/
lemma wide_of_isReducible {e : Expr} (h : e.isReducible = true) : e.Wide := by
  cases e with
  | atom s => exact .atom
  | group es =>
      refine .group (isReducible_group_iff.mp h).2 fun e he => ?_
      obtain ⟨s, rfl⟩ := exists_eq_atom_of_mem h he
      exact .atom

/-- A reducible group is the only live one of its nodes. -/
lemma liveCount_of_isReducible {e : Expr} (h : e.isReducible = true) : e.liveCount = 1 := by
  have hwide := wide_of_isReducible h
  cases e with
  | atom s => simp [isReducible, isDeepest] at h
  | group es =>
      have hzero : ∀ e ∈ es, e.liveCount = 0 := by
        intro e he
        obtain ⟨s, rfl⟩ := exists_eq_atom_of_mem h he
        exact liveCount_atom s
      rw [liveCount_group, if_pos hwide, List.sum_eq_zero (List.forall_mem_map.mpr hzero)]

/-- A reduction leaves wide expressions, and no others, wide. -/
lemma wide_replace_target_iff {e : Expr} {t : Located} (ht : e.target? = some t)
    (value : String) : (e.replace t.path (.atom value)).Wide ↔ e.Wide := by
  obtain ⟨hget, hr⟩ := get?_of_target? ht
  exact wide_replace_iff hget (iff_of_true .atom (wide_of_isReducible hr))

/-- **A reduction takes one live group away.** -/
theorem liveCount_replace_target {e : Expr} {t : Located} (ht : e.target? = some t)
    (value : String) : (e.replace t.path (.atom value)).liveCount + 1 = e.liveCount := by
  obtain ⟨hget, hr⟩ := get?_of_target? ht
  have hwide : (atom value).Wide ↔ t.node.Wide := iff_of_true .atom (wide_of_isReducible hr)
  have hcount := liveCount_replace hget hwide
  rwa [liveCount_of_isReducible hr, liveCount_atom, Nat.add_zero] at hcount

/-- An expression without a target has no live group. -/
lemma liveCount_eq_zero_of_target?_eq_none {e : Expr} (h : e.target? = none) :
    e.liveCount = 0 := by
  induction e using ind with
  | atom s => simp
  | group es ih =>
      have hnarrow : ¬ (group es).Wide := fun hwide => hwide.target?_ne_none rfl h
      have hchildren := (target?_group_eq_none_iff.mp h).2
      have hzero : ∀ e ∈ es, e.liveCount = 0 := fun e he => ih e he (hchildren e he)
      rw [liveCount_group, if_neg hnarrow, List.sum_eq_zero (List.forall_mem_map.mpr hzero)]

end Innermost.Expr
