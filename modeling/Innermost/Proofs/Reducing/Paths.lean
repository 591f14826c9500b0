import Innermost.Proofs.Reducing.Nodes

/-!
The laws of paths: what is found at the end of one, and what an exchange there does.

* `get?_eq_foldlM`, `get?_append`: a path is followed from child to child, and may be followed
  in two parts. So an exchange is found where it was made, and the nodes above it hold it
  (`get?_replace_append`, `get?_replace`).
* `Path.Apart`: two paths that enter different children of some group, which is to say that
  neither begins with the other (`Path.apart_iff`). An exchange at the end of one of them
  leaves alone what is at the end of the other (`get?_replace_of_apart`), and two exchanges
  may be made in either order (`replace_comm`).
* `replace_replace`: of two exchanges at one place only the second counts.
* `replace_lawful` puts the laws together. A path that leads nowhere changes nothing, and the
  number of nodes changes by as much as that of the node that is exchanged.
-/

namespace Innermost

/-! ### Paths that part -/

/-- Whether two paths part: at some group they enter different children. -/
def Path.Apart : Path → Path → Prop
  | i :: p, j :: q => i ≠ j ∨ Path.Apart p q
  | _, _ => False

lemma Path.Apart.symm {p q : Path} (h : p.Apart q) : q.Apart p := by
  induction p generalizing q with
  | nil => exact h.elim
  | cons i p ih =>
      cases q with
      | nil => exact h.elim
      | cons j q => exact h.imp Ne.symm ih

/-- Two paths part exactly if neither begins with the other. -/
lemma Path.apart_iff {p q : Path} : p.Apart q ↔ ¬ p <+: q ∧ ¬ q <+: p := by
  induction p generalizing q with
  | nil => simp [Apart]
  | cons i p ih =>
      cases q with
      | nil => simp [Apart]
      | cons j q =>
          rw [Apart, ih, List.cons_prefix_cons, List.cons_prefix_cons]
          rcases eq_or_ne i j with rfl | hij
          · simp
          · simp [hij, hij.symm]

namespace Expr

variable {p q : Path} {e old : Expr}

/-! ### Longer paths -/

/-- A path is followed from child to child; an atom has none. -/
lemma get?_eq_foldlM (e : Expr) (p : Path) :
    e.get? p = p.foldlM (fun d i => d.children[i]?) e := by
  induction p generalizing e with
  | nil => rw [get?_nil, List.foldlM_nil, Option.pure_def]
  | cons i p ih =>
      rw [List.foldlM_cons]
      cases e with
      | atom s => rfl
      | group es =>
          rw [get?_group_cons]
          exact congrArg es[i]?.bind (funext fun d => ih d)

/-- To follow a path is to follow the first part of it and then the rest. -/
lemma get?_append (e : Expr) (p q : Path) : e.get? (p ++ q) = (e.get? p).bind (·.get? q) := by
  simp only [get?_eq_foldlM, List.foldlM_append]
  rfl

/-- The nodes above an exchange hold it, and are otherwise as before. -/
lemma get?_replace_append (e new : Expr) (p q : Path) :
    (e.replace (p ++ q) new).get? p = (e.get? p).map (·.replace q new) := by
  induction p generalizing e with
  | nil => simp
  | cons i p ih =>
      cases e with
      | atom s => rfl
      | group es =>
          rw [List.cons_append, replace_group_cons, get?_group_cons, get?_group_cons,
            List.getElem?_modify_eq]
          cases es[i]? with
          | none => rfl
          | some d => exact ih d

/-- What is put in place of a node is found there. -/
lemma get?_replace (h : e.get? p = some old) (new : Expr) :
    (e.replace p new).get? p = some new := by
  have happend := get?_replace_append e new p []
  rwa [List.append_nil, h, Option.map_some, replace_nil] at happend

/-! ### Several exchanges -/

/-- A replacement leaves alone what is at the end of a path that parts from its own. -/
lemma get?_replace_of_apart (h : p.Apart q) (e new : Expr) :
    (e.replace p new).get? q = e.get? q := by
  induction p generalizing q e with
  | nil => exact h.elim
  | cons i p ih =>
      cases q with
      | nil => exact h.elim
      | cons j q =>
          cases e with
          | atom s => rfl
          | group es =>
              rw [replace_group_cons, get?_group_cons, get?_group_cons, List.getElem?_modify]
              rcases eq_or_ne i j with rfl | hij
              · have hpq := h.resolve_left fun hne => hne rfl
                cases es[i]? <;> simp [ih hpq]
              · simp [hij]

/-- Replacements at the ends of two paths that part may be made in either order. -/
lemma replace_comm (h : p.Apart q) (e a b : Expr) :
    (e.replace p a).replace q b = (e.replace q b).replace p a := by
  induction p generalizing q e with
  | nil => exact h.elim
  | cons i p ih =>
      cases q with
      | nil => exact h.elim
      | cons j q =>
          cases e with
          | atom s => rfl
          | group es =>
              simp only [replace_group_cons]
              rcases eq_or_ne i j with rfl | hij
              · have hpq := h.resolve_left fun hne => hne rfl
                rw [List.modify_modify_eq, List.modify_modify_eq]
                congr 2
                funext d
                exact ih hpq d
              · rw [List.modify_modify_ne _ _ _ hij]

/-- Of two replacements at the end of one path the second counts. -/
lemma replace_replace (e a b : Expr) (p : Path) :
    (e.replace p a).replace p b = e.replace p b := by
  induction p generalizing e with
  | nil => rw [replace_nil, replace_nil]
  | cons i p ih =>
      cases e with
      | atom s => rfl
      | group es =>
          simp only [replace_group_cons]
          rw [List.modify_modify_eq]
          congr 2
          funext d
          exact ih d

/-! ### All laws -/

/-- **Looking up and exchanging nodes obey the laws of paths.**

* Where a path leads to a node, what is put there is found there; the node itself in its own
  place changes nothing; of two exchanges the second counts; and the number of nodes, which is
  that of the nodes that the visit with a stack comes to, changes by as much as that of the
  node.
* Where it leads nowhere, nothing changes.
* If neither of two paths begins with the other, an exchange at the end of one leaves alone
  what is at the end of the other, or that there is nothing, and the exchanges at both ends
  may be made in either order, whether or not the paths lead to nodes. -/
theorem replace_lawful (e x y : Expr) (p q : Path) :
    (∀ old, e.get? p = some old →
      (e.replace p x).get? p = some x ∧
        e.replace p old = e ∧
        (e.replace p x).replace p y = e.replace p y ∧
        (e.replace p x).nodeCount + old.nodeCount = e.nodeCount + x.nodeCount) ∧
      (e.get? p = none → e.replace p x = e) ∧
      (¬ p <+: q → ¬ q <+: p →
        (e.replace p x).get? q = e.get? q ∧
          (e.replace p x).replace q y = (e.replace q y).replace p x) ∧
      ∀ d : Expr, d.nodeCount = d.preOrder.length := by
  refine ⟨fun old hold => ?_, fun hnone => replace_of_get?_eq_none hnone x, fun hpq hqp => ?_,
    fun d => (length_preOrder d).symm⟩
  · exact ⟨get?_replace hold x, replace_of_get?_eq_some hold, replace_replace e x y p,
      nodeCount_replace hold x⟩
  · have hapart : p.Apart q := Path.apart_iff.mpr ⟨hpq, hqp⟩
    exact ⟨get?_replace_of_apart hapart e x, replace_comm hapart e x y⟩

/-- A node is exchanged deep inside, and there is nothing below an atom. -/
theorem replace_lawful_deep :
    let x := group [.atom "x", .group []]
    let y := atom "y"
    let e := group [.group [.atom "a", .group [], .atom "c"], .atom "b"]
    (e.get? [0, 1] = some (.group []) ∧ (e.replace [0, 1] x).get? [0, 1] = some x ∧
      e.replace [0, 1] (.group []) = e ∧
      (e.replace [0, 1] x).replace [0, 1] y = e.replace [0, 1] y ∧
      (e.replace [0, 1] x).nodeCount + 1 = e.nodeCount + 3) ∧
    (¬ ([0, 1] : Path) <+: [1, 0] ∧ ¬ ([1, 0] : Path) <+: [0, 1] ∧
      (e.replace [0, 1] x).get? [1, 0] = none ∧
      (e.replace [0, 1] x).replace [1, 0] y = (e.replace [1, 0] y).replace [0, 1] x) ∧
    (e.get? [1, 0] = none ∧ e.replace [1, 0] y = e) := by
  intro x y e
  have hget : e.get? [0, 1] = some (.group []) := rfl
  have hnone : e.get? [1, 0] = none := rfl
  have hpq : ¬ ([0, 1] : Path) <+: [1, 0] := by decide
  have hqp : ¬ ([1, 0] : Path) <+: [0, 1] := by decide
  obtain ⟨hsome, -, hapart, -⟩ := replace_lawful e x y [0, 1] [1, 0]
  obtain ⟨hfound, hsame, htwice, hcount⟩ := hsome _ hget
  obtain ⟨hbeside, hcomm⟩ := hapart hpq hqp
  obtain ⟨-, hnowhere, -⟩ := replace_lawful e y x [1, 0] [0, 1]
  exact ⟨⟨hget, hfound, hsame, htwice, by simpa [x] using hcount⟩,
    ⟨hpq, hqp, hbeside.trans hnone, hcomm⟩, hnone, hnowhere hnone⟩

end Expr

end Innermost
