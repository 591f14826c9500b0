import Innermost.Expr.Path

/-!
The group that is reduced next.

A group is reducible if it holds at least two children, all of them atoms. The
target of an expression is its first reducible group when children are searched
before their right neighbours, and so the leftmost innermost one.

* `preOrder` lists the nodes of an expression, each group before its children and
  the children from left to right. The nodes still to be visited are kept on a
  stack. Visiting one takes it off and puts its children in its place, so the
  number of nodes below the stack falls by one with every visit.
* The target is reducible, and its path leads to it (`get?_of_target?`).
* Replacing it by an atom makes the expression smaller (`nodeCount_replace_lt`).
-/

namespace Innermost.Expr

/-! ### Nodes in pre-order -/

/-- The children of a group; an atom has none. -/
def children : Expr → List Expr
  | .atom _ => []
  | .group children => children

theorem nodeCount_eq (e : Expr) : e.nodeCount = 1 + nodeCountAll e.children := by
  cases e <;> simp [children]

/-- Visits the nodes below the stack, adding them in front of those already
`visited`. -/
def visit (visited : List Expr) : List Expr → List Expr
  | [] => visited
  | e :: stack => visit (e :: visited) (e.children ++ stack)
termination_by stack => nodeCountAll stack
decreasing_by
  rw [nodeCountAll_append, nodeCountAll_cons, nodeCount_eq]
  omega

/-- The nodes of an expression in pre-order. -/
def preOrder (e : Expr) : List Expr := (visit [] [e]).reverse

/-! ### Reducible groups -/

/-- Whether the expression is a group that holds only atoms. -/
def isDeepest : Expr → Bool
  | .atom _ => false
  | .group children => children.all isAtom

/-- Whether the expression is a group that can be reduced in one step. A group
of one atom, such as `(x)`, is final and never reduced. -/
def isReducible (e : Expr) : Bool := e.isDeepest && 1 < e.children.length

/-- A node together with the way to it. -/
structure Located where
  /-- The way from the root. -/
  path : Path
  /-- The node at its end. -/
  node : Expr
  deriving DecidableEq

/-- The same node, seen from the parent of which `i` is the position of the
former root. -/
def Located.below (i : Nat) (l : Located) : Located := ⟨i :: l.path, l.node⟩

mutual

/-- The group that is reduced next, if there is one. -/
def target? : Expr → Option Located
  | .atom _ => none
  | .group children =>
      if isReducible (.group children) then some ⟨[], .group children⟩
      else targetAmong? 0 children

/-- The first target among neighbours, the first of which has the position
`i`. -/
def targetAmong? : Nat → List Expr → Option Located
  | _, [] => none
  | i, e :: es =>
      match target? e with
      | some found => some (found.below i)
      | none => targetAmong? (i + 1) es

end

/-- Whether some group of the expression is reducible. -/
def hasReducible (e : Expr) : Bool := e.preOrder.any isReducible

/-! ### The target is a reducible group -/

/-- A reducible group has at least three nodes: itself and two children. -/
theorem two_lt_nodeCount_of_isReducible {e : Expr} (h : e.isReducible = true) :
    2 < e.nodeCount := by
  have h1 : 1 < e.children.length := by
    rw [isReducible, Bool.and_eq_true] at h
    exact of_decide_eq_true h.2
  have h2 := length_le_nodeCountAll e.children
  rw [nodeCount_eq]
  omega

mutual

/-- The target of an expression is a reducible group, and its path leads to
it. -/
theorem get?_of_target? : ∀ {e : Expr} {t : Located}, e.target? = some t →
    e.get? t.path = some t.node ∧ t.node.isReducible = true
  | .atom _, _, h => by simp [target?] at h
  | .group es, t, h => by
      rw [target?] at h
      split at h
      · rename_i hr
        simp at h
        subst h
        exact ⟨by simp, hr⟩
      · obtain ⟨i, q, hq, e, he, hg, hr⟩ := get?_of_targetAmong? h
        refine ⟨?_, hr⟩
        rw [hq, Nat.zero_add, get?_group_cons, he]
        exact hg

/-- The first target among neighbours lies in one of them. -/
theorem get?_of_targetAmong? : ∀ {es : List Expr} {k : Nat} {t : Located},
    targetAmong? k es = some t →
    ∃ i q, t.path = (k + i) :: q ∧ ∃ e, es[i]? = some e ∧ e.get? q = some t.node ∧
      t.node.isReducible = true
  | [], _, _, h => by simp [targetAmong?] at h
  | e :: es, k, t, h => by
      rw [targetAmong?] at h
      split at h
      · rename_i found hf
        simp at h
        subst h
        obtain ⟨hg, hr⟩ := get?_of_target? hf
        exact ⟨0, found.path, rfl, e, rfl, hg, hr⟩
      · obtain ⟨i, q, hq, e', he', hg, hr⟩ := get?_of_targetAmong? h
        refine ⟨i + 1, q, ?_, e', by simpa using he', hg, hr⟩
        rw [hq]
        congr 1
        omega

end

/-- Every reduction makes the expression smaller. -/
theorem nodeCount_replace_lt {e : Expr} {t : Located} (h : e.target? = some t)
    (value : String) : (e.replace t.path (.atom value)).nodeCount < e.nodeCount := by
  obtain ⟨hg, hr⟩ := get?_of_target? h
  have h1 := nodeCount_replace hg (.atom value)
  have h2 := two_lt_nodeCount_of_isReducible hr
  rw [nodeCount_atom] at h1
  omega

end Innermost.Expr
