import Mathlib.Tactic
import Innermost.Expr.Target

/-!
The nodes of an expression.

* `Expr.nodes` lists the nodes by recursion on the expression; the visit with a
  stack lists the same (`preOrder_eq_nodes`), since what it still has to visit is
  always what lies below its stack (`visit_eq`). So it visits as many nodes as the
  expression has (`length_preOrder`).
* `exists_eq_atom_of_mem`: a reducible one among them has only atoms below it.
-/

namespace Innermost.Expr

/-! ### Pre-order by recursion -/

mutual

/-- The nodes of an expression, each before those below it. -/
def nodes : Expr → List Expr
  | .atom text => [.atom text]
  | .group children => .group children :: nodesAll children

/-- The nodes of several expressions, those of the first one first. -/
def nodesAll : List Expr → List Expr
  | [] => []
  | e :: es => nodes e ++ nodesAll es

end

@[simp] lemma nodesAll_nil : nodesAll [] = [] := by rw [nodesAll]

@[simp] lemma nodesAll_cons (e : Expr) (es : List Expr) :
    nodesAll (e :: es) = e.nodes ++ nodesAll es := by rw [nodesAll]

lemma nodes_eq (e : Expr) : e.nodes = e :: nodesAll e.children := by
  cases e <;> simp [nodes, children]

lemma nodesAll_eq (es : List Expr) : nodesAll es = es.flatMap nodes := by
  induction es with
  | nil => simp
  | cons e es ih => simp [ih]

lemma nodesAll_append (es fs : List Expr) : nodesAll (es ++ fs) = nodesAll es ++ nodesAll fs := by
  simp only [nodesAll_eq, List.flatMap_append]

lemma mem_nodesAll {n : Expr} {es : List Expr} : n ∈ nodesAll es ↔ ∃ e ∈ es, n ∈ e.nodes := by
  rw [nodesAll_eq, List.mem_flatMap]

/-- The words below a group are those below its children. -/
lemma forall_words_group_iff {Q : String → Prop} {es : List Expr} :
    (∀ word, .atom word ∈ (group es).nodes → Q word) ↔
      ∀ e ∈ es, ∀ word, .atom word ∈ e.nodes → Q word := by
  simp only [nodes, List.mem_cons, reduceCtorEq, false_or, mem_nodesAll]
  constructor
  · intro h e he word hword
    exact h word ⟨e, he, hword⟩
  · rintro h word ⟨e, he, hword⟩
    exact h e he word hword

/-- A visit goes on with the nodes below its stack. -/
lemma visit_eq (visited stack : List Expr) :
    visit visited stack = (nodesAll stack).reverse ++ visited := by
  fun_induction visit visited stack with
  | case1 visited => simp
  | case2 visited e stack ih =>
      rw [ih, nodesAll_append, nodesAll_cons, nodes_eq e]
      simp

/-- The visit with a stack lists the nodes in pre-order. -/
lemma preOrder_eq_nodes (e : Expr) : e.preOrder = e.nodes := by
  rw [preOrder, visit_eq]
  simp

mutual

lemma length_nodes : ∀ e : Expr, e.nodes.length = e.nodeCount
  | .atom s => by simp [nodes]
  | .group es => by
      rw [nodes, List.length_cons, length_nodesAll, nodeCount_group, Nat.add_comm]

lemma length_nodesAll : ∀ es : List Expr, (nodesAll es).length = nodeCountAll es
  | [] => by simp
  | e :: es => by
      rw [nodesAll_cons, List.length_append, length_nodes, length_nodesAll, nodeCountAll_cons]

end

/-- The visit with a stack comes to every node once. -/
lemma length_preOrder (e : Expr) : e.preOrder.length = e.nodeCount := by
  rw [preOrder_eq_nodes, length_nodes]

/-! ### Reducible nodes -/

lemma isReducible_group_iff {es : List Expr} :
    (group es).isReducible = true ↔ es.all isAtom ∧ 2 ≤ es.length := by
  rw [isReducible, Bool.and_eq_true, decide_eq_true_eq]
  rfl

/-- A reducible group holds only atoms. -/
lemma exists_eq_atom_of_mem {e : Expr} {es : List Expr} (h : (group es).isReducible = true)
    (he : e ∈ es) : ∃ s, e = atom s := by
  have hatom := List.all_eq_true.mp (isReducible_group_iff.mp h).1 e he
  cases e with
  | atom s => exact ⟨s, rfl⟩
  | group ds => cases hatom

end Innermost.Expr
