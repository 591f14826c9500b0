import Innermost.Proofs.Reducing.Positions

/-!
The nodes of an expression, one call after another.

* `Visit`: a visit that is under way. A call takes the last node off its stack, answers with it,
  and puts its children there, turned round so that the first of them is the next to be taken.
* `Visit.pending`: what a visit has still to come to. A call answers with the first node of it
  and leaves the others, unless there is none (`next_cases`). So after `k` calls the first `k`
  nodes are done with (`pending_after`), and the call after them answers with the next one, or
  with none for ever (`answerAt_eq`).
* `Visit.drain`: calls are made until one has no answer. There is such a call, and those before
  it have answered with all that was pending (`drain_eq`).
* `Expr.paths`: the paths that lead to a node (`mem_paths`), in lexicographic order
  (`pairwise_paths`). Call by call a visit answers with the nodes at their ends
  (`visit_follows_paths`).
-/

namespace Innermost

/-- A visit that is under way: the nodes on its stack, the next one at the end. -/
structure Visit where
  stack : List Expr

namespace Visit

/-- The visit of an expression and of all that is below it. -/
def start (e : Expr) : Visit := ⟨[e]⟩

/-- What a call answers with, and the visit after it. -/
def next (v : Visit) : Option Expr × Visit :=
  match v.stack.getLast? with
  | none => (none, v)
  | some e => (some e, ⟨v.stack.dropLast ++ e.children.reverse⟩)

/-- The visit after `k` calls. -/
def after : Nat → Visit → Visit
  | 0, v => v
  | k + 1, v => after k v.next.2

/-- What the call after `k` others answers with. -/
def answerAt (k : Nat) (v : Visit) : Option Expr := (v.after k).next.1

/-! ### What is left of a visit -/

/-- The nodes that a visit has still to come to. -/
def pending (v : Visit) : List Expr := Expr.nodesAll v.stack.reverse

lemma pending_start (e : Expr) : (start e).pending = e.nodes := by
  rw [pending, start, List.reverse_singleton, Expr.nodesAll_cons, Expr.nodesAll_nil,
    List.append_nil]

/-- A call answers with the first node that is pending and leaves the others, or there is none
and it changes nothing. -/
lemma next_cases (v : Visit) :
    v.next = (none, v) ∧ v.pending = [] ∨
      ∃ e v', v.next = (some e, v') ∧ v.pending = e :: v'.pending := by
  obtain ⟨stack⟩ := v
  rcases List.eq_nil_or_concat stack with rfl | ⟨below, e, rfl⟩
  · exact .inl ⟨rfl, Expr.nodesAll_nil⟩
  · refine .inr ⟨e, ⟨below ++ e.children.reverse⟩, by simp [next], ?_⟩
    rw [pending, pending, List.concat_eq_append, List.reverse_append, List.reverse_append,
      List.reverse_reverse, List.reverse_singleton, List.singleton_append, Expr.nodesAll_cons,
      Expr.nodesAll_append, Expr.nodes_eq, List.cons_append]

/-- A call answers with the first node that is pending. -/
lemma next_fst (v : Visit) : v.next.1 = v.pending.head? := by
  obtain ⟨hnext, hpending⟩ | ⟨e, v', hnext, hpending⟩ := v.next_cases <;>
    rw [hnext, hpending] <;> rfl

/-- A call leaves the others. -/
lemma pending_next (v : Visit) : v.next.2.pending = v.pending.tail := by
  obtain ⟨hnext, hpending⟩ | ⟨e, v', hnext, hpending⟩ := v.next_cases
  · rw [hnext, hpending, List.tail_nil]
  · rw [hnext, hpending, List.tail_cons]

/-- After `k` calls the first `k` nodes are done with. -/
lemma pending_after (k : Nat) (v : Visit) : (v.after k).pending = v.pending.drop k := by
  induction k generalizing v with
  | zero => rw [after, List.drop_zero]
  | succ k ih => rw [after, ih, pending_next, List.drop_tail]

/-- **Call by call a visit answers with the nodes that were pending**, and with none after
them. -/
theorem answerAt_eq (k : Nat) (v : Visit) : v.answerAt k = v.pending[k]? := by
  rw [answerAt, next_fst, pending_after, List.head?_drop]

/-! ### A whole visit -/

/-- The answers of calls that are made until one has none. -/
def drain (v : Visit) : List Expr :=
  match _h : v.next with
  | (none, _) => []
  | (some e, v') => e :: v'.drain
termination_by v.pending.length
decreasing_by
  obtain ⟨hnone, -⟩ | ⟨d, w, hsome, hpending⟩ := v.next_cases
  · cases hnone.symm.trans _h
  · cases hsome.symm.trans _h
    rw [hpending, List.length_cons]
    exact Nat.lt_succ_self _

/-- **A visit comes to an end**, and before that to all nodes that were pending. -/
theorem drain_eq (v : Visit) : v.drain = v.pending := by
  fun_induction drain v with
  | case1 v _ hnext =>
      have hhead := v.next_fst
      rw [hnext] at hhead
      exact (List.head?_eq_none_iff.mp hhead.symm).symm
  | case2 v e v' hnext ih =>
      obtain ⟨hnone, -⟩ | ⟨d, w, hsome, hpending⟩ := v.next_cases
      · cases hnone.symm.trans hnext
      · cases hsome.symm.trans hnext
        rw [ih, hpending]

lemma drain_start (e : Expr) : (start e).drain = e.nodes := by
  rw [drain_eq, pending_start]

end Visit

namespace Expr

/-! ### The paths to the nodes -/

/-- The paths to the nodes in pre-order. -/
def paths (e : Expr) : List Path := e.located.map Located.path

/-- They are the paths that lead to a node. -/
lemma mem_paths {e : Expr} {p : Path} : p ∈ e.paths ↔ (e.get? p).isSome = true := by
  rw [paths, List.mem_map, Option.isSome_iff_exists]
  constructor
  · rintro ⟨l, hl, rfl⟩
    exact ⟨l.node, mem_located.mp hl⟩
  · rintro ⟨n, hn⟩
    exact ⟨⟨p, n⟩, mem_located.mpr hn, rfl⟩

/-- They stand in lexicographic order, each once. -/
lemma pairwise_paths (e : Expr) : e.paths.Pairwise (· < ·) := by
  rw [paths, List.pairwise_map]
  exact pairwise_located e

/-- The nodes in pre-order are those at the ends of the paths. -/
lemma map_get?_paths (e : Expr) : e.paths.map e.get? = e.nodes.map some := by
  rw [← map_node_located, paths, List.map_map, List.map_map]
  exact List.map_congr_left fun l hl => mem_located.mp hl

lemma getElem?_nodes (e : Expr) (k : Nat) : e.nodes[k]? = e.paths[k]?.bind e.get? := by
  rw [← map_node_located, paths, List.getElem?_map, List.getElem?_map]
  cases hl : e.located[k]? with
  | none => rfl
  | some l => exact (mem_located.mp (List.mem_of_getElem? hl)).symm

lemma nodeCount_group_eq_sum (es : List Expr) :
    (group es).nodeCount = 1 + (es.map nodeCount).sum := by
  induction es with
  | nil => simp
  | cons e es ih =>
      rw [nodeCount_group] at ih ⊢
      rw [nodeCountAll_cons, List.map_cons, List.sum_cons]
      omega

/-- **A visit with a stack answers with the nodes in pre-order, each at the end of its path.**

* The paths that lead to a node stand in lexicographic order, each once. The call after `k`
  others answers with the node at the end of the `k`-th of them, and with none if there are no
  more than `k`.
* So calls that are made until one has no answer come to an end, and have answered with the
  nodes in pre-order.
* Their number is one for an atom, and one more than that of all children for a group. -/
theorem visit_follows_paths (e : Expr) :
    (e.paths.Pairwise (· < ·) ∧ ∀ p, p ∈ e.paths ↔ (e.get? p).isSome = true) ∧
    (∀ k, (Visit.start e).answerAt k = e.paths[k]?.bind e.get?) ∧
    ((Visit.start e).drain = e.preOrder ∧
      (Visit.start e).drain.map some = e.paths.map e.get?) ∧
    (Visit.start e).drain.length = e.nodeCount ∧
    (∀ s, (Visit.start (atom s)).drain.length = 1) ∧
    ∀ es, (Visit.start (group es)).drain.length =
      1 + (es.map fun d => (Visit.start d).drain.length).sum := by
  have hlength (d : Expr) : (Visit.start d).drain.length = d.nodeCount := by
    rw [Visit.drain_start, length_nodes]
  simp only [hlength]
  refine ⟨⟨pairwise_paths e, fun p => mem_paths⟩, fun k => ?_, ⟨?_, ?_⟩, trivial, nodeCount_atom,
    nodeCount_group_eq_sum⟩
  · rw [Visit.answerAt_eq, Visit.pending_start, getElem?_nodes]
  · rw [Visit.drain_start, preOrder_eq_nodes]
  · rw [Visit.drain_start, map_get?_paths]

/-- The children of the first group come before its right neighbour. -/
example : (Visit.start (group [group [atom "a", atom "b"], atom "c"])).answerAt 3 =
    some (atom "b") := by
  decide

end Expr

end Innermost
