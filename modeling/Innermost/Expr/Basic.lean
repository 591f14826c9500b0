/-!
Parenthesised expressions: trees whose leaves are uninterpreted words.

* `Expr.ind` is the induction principle: a property holds of every expression
  once it holds of every atom and is inherited from the children of a group.
* `Expr.text` writes an expression: an atom as itself, and a group as its
  children with one space between neighbours, inside parentheses
  (`text_group`).
* `Expr.nodeCount` counts the atoms and groups of an expression, itself
  included (`nodeCount_group`).
-/

namespace Innermost

/-- A parenthesised expression. -/
inductive Expr where
  /-- A word, such as `true`, `&&` or `42`; nothing looks inside it. -/
  | atom (text : String)
  /-- Expressions in parentheses, such as `(true && false)`. -/
  | group (children : List Expr)
  deriving Inhabited

namespace Expr

/-- The induction principle of the nested inductive: a property holds of every
expression once it holds of the atoms and is inherited from the children. -/
@[elab_as_elim]
theorem ind {P : Expr → Prop} (atom : ∀ text, P (.atom text))
    (group : ∀ children : List Expr, (∀ e ∈ children, P e) → P (.group children))
    (e : Expr) : P e :=
  Expr.rec (motive_1 := P) (motive_2 := fun es => ∀ e ∈ es, P e)
    atom (fun es ih => group es ih)
    (fun e he => absurd he (by simp))
    (fun _ _ ihh iht e he => by
      rcases List.mem_cons.mp he with rfl | he'
      · exact ihh
      · exact iht e he')
    e

/-! ### Equality -/

mutual

/-- Equality of expressions is decided from the root down. -/
def decEq : (a b : Expr) → Decidable (a = b)
  | .atom s, .atom t =>
      if h : s = t then .isTrue (by rw [h]) else .isFalse (by simpa using h)
  | .atom _, .group _ => .isFalse (by simp)
  | .group _, .atom _ => .isFalse (by simp)
  | .group es, .group fs =>
      match decEqAll es fs with
      | .isTrue h => .isTrue (by rw [h])
      | .isFalse h => .isFalse (by simpa using h)

/-- Equality of lists of expressions is decided from the first one on. -/
def decEqAll : (es fs : List Expr) → Decidable (es = fs)
  | [], [] => .isTrue rfl
  | [], _ :: _ => .isFalse (by simp)
  | _ :: _, [] => .isFalse (by simp)
  | e :: es, f :: fs =>
      match decEq e f with
      | .isFalse h => .isFalse (by simp [h])
      | .isTrue h =>
          match decEqAll es fs with
          | .isTrue h' => .isTrue (by rw [h, h'])
          | .isFalse h' => .isFalse (by simp [h'])

end

instance : DecidableEq Expr := decEq

/-! ### Parts -/

/-- The word of an atom. -/
def atom? : Expr → Option String
  | .atom text => some text
  | .group _ => none

/-- The children of a group. -/
def children? : Expr → Option (List Expr)
  | .atom _ => none
  | .group children => some children

/-- Whether the expression is an atom. -/
def isAtom : Expr → Bool
  | .atom _ => true
  | .group _ => false

/-! ### Writing -/

mutual

/-- The text of an expression. -/
def text : Expr → String
  | .atom text => text
  | .group children => "(" ++ textAll children ++ ")"

/-- The texts of neighbours, with one space between each two. -/
def textAll : List Expr → String
  | [] => ""
  | [e] => text e
  | e :: f :: es => text e ++ " " ++ textAll (f :: es)

end

/-- Neighbours are joined by single spaces. -/
theorem textAll_eq (es : List Expr) : textAll es = " ".intercalate (es.map text) := by
  induction es with
  | nil => rfl
  | cons e es ih =>
      cases es with
      | nil => simp [textAll]
      | cons f es => rw [textAll, ih]; simp [String.append_assoc]

@[simp] theorem text_atom (s : String) : (atom s).text = s := by rw [text]

theorem text_group (es : List Expr) :
    (group es).text = "(" ++ " ".intercalate (es.map text) ++ ")" := by
  rw [text, textAll_eq]

/-! ### Counting -/

mutual

/-- The number of atoms and groups in an expression, itself included. -/
def nodeCount : Expr → Nat
  | .atom _ => 1
  | .group children => 1 + nodeCountAll children

/-- The number of atoms and groups in several expressions. -/
def nodeCountAll : List Expr → Nat
  | [] => 0
  | e :: es => nodeCount e + nodeCountAll es

end

@[simp] theorem nodeCount_atom (s : String) : (atom s).nodeCount = 1 := by rw [nodeCount]

@[simp] theorem nodeCount_group (es : List Expr) :
    (group es).nodeCount = 1 + nodeCountAll es := by rw [nodeCount]

@[simp] theorem nodeCountAll_nil : nodeCountAll [] = 0 := by rw [nodeCountAll]

@[simp] theorem nodeCountAll_cons (e : Expr) (es : List Expr) :
    nodeCountAll (e :: es) = e.nodeCount + nodeCountAll es := by rw [nodeCountAll]

@[simp] theorem nodeCountAll_append (es fs : List Expr) :
    nodeCountAll (es ++ fs) = nodeCountAll es + nodeCountAll fs := by
  induction es with
  | nil => simp
  | cons e es ih => simp [ih]; omega

theorem nodeCount_pos (e : Expr) : 0 < e.nodeCount := by
  cases e with
  | atom s => simp
  | group es => rw [nodeCount_group]; omega

/-- Several expressions have at least one node each. -/
theorem length_le_nodeCountAll (es : List Expr) : es.length ≤ nodeCountAll es := by
  induction es with
  | nil => simp
  | cons e es ih =>
      have := nodeCount_pos e
      rw [List.length_cons, nodeCountAll_cons]
      omega

end Expr

end Innermost
