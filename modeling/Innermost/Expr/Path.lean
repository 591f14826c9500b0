import Innermost.Expr.Basic

/-!
Paths into an expression: the child to enter at each group on the way down.

* `Expr.get?` follows a path; it fails where the path leaves a group or runs
  into an atom.
* `Expr.replace` exchanges the node at the end of a path; a path that leads
  nowhere changes nothing (`replace_of_get?_eq_none`), nor does a node in its own
  place (`replace_of_get?_eq_some`), and the number of nodes changes by as much as
  that of the node (`nodeCount_replace`).
-/

namespace Innermost

/-- The positions of the children to enter, from the root down. -/
abbrev Path := List Nat

namespace Expr

/-- The node at the end of a path, if the path stays inside the expression. -/
def get? : Expr → Path → Option Expr
  | e, [] => some e
  | .atom _, _ :: _ => none
  | .group children, i :: path => children[i]?.bind (get? · path)

/-- The expression with the node at the end of a path exchanged. -/
def replace : Expr → Path → Expr → Expr
  | _, [], new => new
  | .atom text, _ :: _, _ => .atom text
  | .group children, i :: path, new => .group (children.modify i (replace · path new))

@[simp] theorem get?_nil (e : Expr) : e.get? [] = some e := by cases e <;> rfl

@[simp] theorem get?_atom_cons (s : String) (i : Nat) (p : Path) :
    (atom s).get? (i :: p) = none := rfl

@[simp] theorem get?_group_cons (es : List Expr) (i : Nat) (p : Path) :
    (group es).get? (i :: p) = es[i]?.bind (get? · p) := rfl

@[simp] theorem replace_nil (e new : Expr) : e.replace [] new = new := by cases e <;> rfl

@[simp] theorem replace_atom_cons (s : String) (i : Nat) (p : Path) (new : Expr) :
    (atom s).replace (i :: p) new = atom s := rfl

@[simp] theorem replace_group_cons (es : List Expr) (i : Nat) (p : Path) (new : Expr) :
    (group es).replace (i :: p) new = group (es.modify i (replace · p new)) := rfl

/-- A change that leaves alone the expression it is made to changes nothing. -/
theorem modify_of_eq {es : List Expr} {i : Nat} {g : Expr → Expr}
    (h : ∀ e, es[i]? = some e → g e = e) : es.modify i g = es := by
  induction es generalizing i with
  | nil => exact List.modify_nil g i
  | cons e es ih =>
      cases i with
      | zero => rw [List.modify_zero_cons, h e rfl]
      | succ i => rw [List.modify_succ_cons, ih h]

/-- A path that leads nowhere changes nothing. -/
theorem replace_of_get?_eq_none {e : Expr} {p : Path} (h : e.get? p = none) (new : Expr) :
    e.replace p new = e := by
  induction p generalizing e with
  | nil => simp at h
  | cons i p ih =>
      cases e with
      | atom s => rfl
      | group es =>
          rw [replace_group_cons, modify_of_eq]
          intro d hd
          rw [get?_group_cons, hd] at h
          exact ih h

/-- A node in its own place changes nothing. -/
theorem replace_of_get?_eq_some {e node : Expr} {p : Path} (h : e.get? p = some node) :
    e.replace p node = e := by
  induction p generalizing e with
  | nil =>
      rw [get?_nil] at h
      rw [replace_nil, Option.some.inj h]
  | cons i p ih =>
      cases e with
      | atom s => rfl
      | group es =>
          rw [replace_group_cons, modify_of_eq]
          intro d hd
          rw [get?_group_cons, hd] at h
          exact ih h

/-! ### Counting -/

/-- Exchanging one of several expressions changes their number of nodes by as
much as its own. -/
theorem nodeCountAll_modify {es : List Expr} {i : Nat} {e : Expr} (h : es[i]? = some e)
    (g : Expr → Expr) :
    nodeCountAll (es.modify i g) + e.nodeCount = nodeCountAll es + (g e).nodeCount := by
  induction es generalizing i with
  | nil => simp at h
  | cons d es ih =>
      cases i with
      | zero =>
          simp at h
          subst h
          simp
          omega
      | succ i =>
          have := ih (i := i) (by simpa using h)
          simp
          omega

/-- Exchanging a node changes the number of nodes by as much as its own. -/
theorem nodeCount_replace {e old : Expr} {p : Path} (h : e.get? p = some old) (new : Expr) :
    (e.replace p new).nodeCount + old.nodeCount = e.nodeCount + new.nodeCount := by
  induction p generalizing e with
  | nil =>
      simp at h
      subst h
      simp
      omega
  | cons i p ih =>
      cases e with
      | atom s => simp at h
      | group es =>
          simp only [get?_group_cons, Option.bind_eq_some_iff] at h
          obtain ⟨e, he, hold⟩ := h
          have h1 := ih hold
          have h2 := nodeCountAll_modify he (replace · p new)
          simp only [replace_group_cons, nodeCount_group]
          omega

end Expr

end Innermost
