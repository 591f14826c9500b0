import Innermost.Proofs.Reducing.Nodes

/-!
The nodes of an expression together with their paths.

* `Expr.located` lists them by recursion on the expression, and without the paths they are the
  nodes in pre-order (`map_node_located`).
* `mem_located`: a node is listed with a path exactly if the path leads to it, so that equal
  nodes in different places are told apart.
* `pairwise_located`: the paths stand in lexicographic order, each once. A path comes before
  those that go on from it, and the paths into a child before those into its right neighbours.
-/

namespace Innermost.Expr

mutual

/-- The nodes of an expression with their paths, each before those below it. -/
def located : Expr → List Located
  | .atom text => [⟨[], .atom text⟩]
  | .group children => ⟨[], .group children⟩ :: locatedAmong 0 children

/-- The nodes of neighbours, the first of which has the position `i`, with their paths from
the group around them. -/
def locatedAmong : Nat → List Expr → List Located
  | _, [] => []
  | i, e :: es => (located e).map (Located.below i) ++ locatedAmong (i + 1) es

end

@[simp] lemma locatedAmong_nil (i : Nat) : locatedAmong i [] = [] := by rw [locatedAmong]

@[simp] lemma locatedAmong_cons (i : Nat) (e : Expr) (es : List Expr) :
    locatedAmong i (e :: es) = e.located.map (Located.below i) ++ locatedAmong (i + 1) es := by
  rw [locatedAmong]

lemma located_eq (e : Expr) : e.located = ⟨[], e⟩ :: locatedAmong 0 e.children := by
  cases e <;> simp [located, children]

/-! ### Without the paths -/

mutual

/-- Without their paths the nodes are those in pre-order. -/
lemma map_node_located : ∀ e : Expr, e.located.map Located.node = e.nodes
  | .atom s => by simp [located, nodes]
  | .group es => by rw [located, List.map_cons, map_node_locatedAmong, nodes]

lemma map_node_locatedAmong : ∀ (i : Nat) (es : List Expr),
    (locatedAmong i es).map Located.node = nodesAll es
  | _, [] => by simp
  | i, e :: es => by
      have hbelow : Located.node ∘ Located.below i = Located.node := rfl
      rw [locatedAmong_cons, List.map_append, List.map_map, hbelow, map_node_located,
        map_node_locatedAmong, nodesAll_cons]

end

lemma preOrder_eq_map_located (e : Expr) : e.preOrder = e.located.map Located.node := by
  rw [preOrder_eq_nodes, map_node_located]

/-! ### Every node at the end of its path -/

/-- Seen from the parent, the paths begin with the position of the former root. -/
lemma mem_map_below {ls : List Located} {i : Nat} {l : Located} :
    l ∈ ls.map (Located.below i) ↔ ∃ q, l.path = i :: q ∧ ⟨q, l.node⟩ ∈ ls := by
  rw [List.mem_map]
  constructor
  · rintro ⟨m, hm, rfl⟩
    exact ⟨m.path, rfl, hm⟩
  · rintro ⟨q, hpath, hq⟩
    refine ⟨⟨q, l.node⟩, hq, ?_⟩
    rw [Located.below, ← hpath]

/-- The nodes of neighbours are those of each of them, below its position. -/
lemma mem_locatedAmong {i : Nat} {es : List Expr} {l : Located} :
    l ∈ locatedAmong i es ↔
      ∃ j d q, es[j]? = some d ∧ l.path = (i + j) :: q ∧ ⟨q, l.node⟩ ∈ located d := by
  induction es generalizing i with
  | nil => simp
  | cons e es ih =>
      rw [locatedAmong_cons, List.mem_append, mem_map_below, ih]
      constructor
      · rintro (⟨q, hpath, hq⟩ | ⟨j, d, q, hd, hpath, hq⟩)
        · exact ⟨0, e, q, rfl, hpath, hq⟩
        · exact ⟨j + 1, d, q, hd, by rw [hpath, Nat.add_right_comm, Nat.add_assoc], hq⟩
      · rintro ⟨j, d, q, hd, hpath, hq⟩
        cases j with
        | zero => exact .inl ⟨q, hpath, Option.some.inj hd ▸ hq⟩
        | succ j =>
            exact .inr ⟨j, d, q, hd, by rw [hpath, Nat.add_right_comm, Nat.add_assoc], hq⟩

/-- **A node is listed with a path exactly if the path leads to it.** -/
theorem mem_located {e : Expr} {l : Located} : l ∈ e.located ↔ e.get? l.path = some l.node := by
  obtain ⟨p, g⟩ := l
  induction p generalizing e with
  | nil =>
      have hamong : (⟨[], g⟩ : Located) ∉ locatedAmong 0 e.children := by
        rw [mem_locatedAmong]
        rintro ⟨j, d, q, -, hpath, -⟩
        cases hpath
      simp [located_eq, hamong, eq_comm]
  | cons i p ih =>
      cases e with
      | atom s => simp [located]
      | group es =>
          rw [located, List.mem_cons, mem_locatedAmong, get?_group_cons, Option.bind_eq_some_iff]
          constructor
          · rintro (hroot | ⟨j, d, q, hd, hpath, hq⟩)
            · cases hroot
            · rw [Nat.zero_add] at hpath
              obtain ⟨rfl, rfl⟩ := List.cons.inj hpath
              exact ⟨d, hd, ih.mp hq⟩
          · rintro ⟨d, hd, hg⟩
            exact .inr ⟨i, d, p, hd, by rw [Nat.zero_add], ih.mpr hg⟩

/-! ### The order of the paths -/

lemma pairwise_locatedAmong {es : List Expr}
    (h : ∀ e ∈ es, e.located.Pairwise fun l m => l.path < m.path) (i : Nat) :
    (locatedAmong i es).Pairwise fun l m => l.path < m.path := by
  induction es generalizing i with
  | nil => simp
  | cons e es ih =>
      have hes := ih (fun d hd => h d (.tail _ hd)) (i + 1)
      rw [locatedAmong_cons, List.pairwise_append, List.pairwise_map]
      refine ⟨(h e List.mem_cons_self).imp fun hlt => ?_, hes, fun l hl m hm => ?_⟩
      · exact List.cons_lt_cons_iff.mpr (.inr ⟨rfl, hlt⟩)
      · -- the one path enters a child further to the left than the other
        obtain ⟨q, hl, -⟩ := mem_map_below.mp hl
        obtain ⟨j, d, r, -, hm, -⟩ := mem_locatedAmong.mp hm
        rw [hl, hm]
        exact List.cons_lt_cons_iff.mpr (.inl (by omega))

/-- **The paths to the nodes in pre-order stand in lexicographic order**, no two the same. -/
theorem pairwise_located (e : Expr) : e.located.Pairwise fun l m => l.path < m.path := by
  induction e using ind with
  | atom s => simp [located]
  | group es ih =>
      rw [located, List.pairwise_cons]
      refine ⟨fun l hl => ?_, pairwise_locatedAmong ih 0⟩
      obtain ⟨j, d, q, -, hpath, -⟩ := mem_locatedAmong.mp hl
      rw [hpath]
      exact List.nil_lt_cons _ _

end Innermost.Expr
