import Innermost.Proofs.Reducing.Paths
import Innermost.Proofs.Reducing.Positions

/-!
The target of an expression is its leftmost innermost reducible group.

* `target?_eq_find?`: the target is the first reducible one of the nodes with their paths.
  These stand in the order of their paths, so it is the reducible group with the least path
  (`target?_eq_some_iff`).
* `hasReducible_eq_isSome_target?`: the visit of all nodes finds a reducible one exactly if
  there is a target.
* `searched_eq_target?`: a search that pushes the positions it comes through onto one list, on
  its way back from the target, finds the target with its path. Where it has found nothing it
  has pushed nothing (`pushing_eq`).
* `eq_of_isPrefix`: no reducible group lies inside another, since a reducible group holds only
  atoms. So the paths to two of them part (`apart_of_isReducible`).
* `target?_leftmost_innermost` puts this together.
-/

namespace Innermost.Expr

variable {p q : Path} {e g k : Expr}

/-! ### The first reducible node -/

mutual

/-- The target is the first reducible one of the nodes. -/
lemma target?_eq_find? : ∀ e : Expr, e.target? = e.located.find? fun l => l.node.isReducible
  | .atom s => by simp [target?, located, isReducible, isDeepest]
  | .group es => by
      rw [target?, located, List.find?_cons]
      split
      · rename_i h
        simp [h]
      · rename_i h
        simp [h, targetAmong?_eq_find?]

lemma targetAmong?_eq_find? : ∀ (i : Nat) (es : List Expr),
    targetAmong? i es = (locatedAmong i es).find? fun l => l.node.isReducible
  | _, [] => by simp [targetAmong?]
  | i, e :: es => by
      have hbelow : (fun l : Located => l.node.isReducible) ∘ Located.below i =
          fun l => l.node.isReducible := rfl
      rw [targetAmong?, locatedAmong_cons, List.find?_append, List.find?_map, hbelow,
        ← target?_eq_find?, ← targetAmong?_eq_find?]
      cases target? e <;> rfl

end

/-- The target, without its path, is the first reducible node that the visit with a stack
comes to. -/
lemma map_node_target? (e : Expr) :
    e.target?.map Located.node = e.preOrder.find? isReducible := by
  rw [target?_eq_find?, preOrder_eq_map_located, List.find?_map]
  rfl

/-- An expression has no target exactly if none of its nodes is reducible. -/
lemma target?_eq_none_iff : e.target? = none ↔ ∀ n ∈ e.nodes, n.isReducible = false := by
  rw [← Option.map_eq_none_iff (f := Located.node), map_node_target?, preOrder_eq_nodes,
    List.find?_eq_none]
  simp

/-- A group has no target exactly if it is not reducible and none of its children
has one. -/
lemma target?_group_eq_none_iff {es : List Expr} :
    (group es).target? = none ↔
      (group es).isReducible = false ∧ ∀ e ∈ es, e.target? = none := by
  simp only [target?_eq_none_iff, nodes, List.forall_mem_cons, mem_nodesAll]
  refine and_congr_right fun _ => ⟨fun h e he n hn => h n ⟨e, he, hn⟩, ?_⟩
  rintro h n ⟨e, he, hn⟩
  exact h e he n hn

/-- A single atom in parentheses is left alone. -/
lemma target?_group_atom (s : String) : (group [atom s]).target? = none := by
  rw [target?_eq_none_iff]
  simp [nodes, nodesAll, isReducible, isDeepest, children]

/-- The visit of all nodes finds a reducible group exactly if there is a target. -/
lemma hasReducible_eq_isSome_target? (e : Expr) : e.hasReducible = e.target?.isSome := by
  rw [Bool.eq_iff_iff, hasReducible, List.any_eq_true, ← Option.isSome_map (f := Located.node),
    map_node_target?, List.find?_isSome]

/-- There is a target exactly if some path leads to a reducible node. -/
lemma isSome_target?_iff :
    e.target?.isSome = true ↔ ∃ p g, e.get? p = some g ∧ g.isReducible = true := by
  rw [target?_eq_find?, List.find?_isSome]
  constructor
  · rintro ⟨l, hl, hr⟩
    exact ⟨l.path, l.node, mem_located.mp hl, hr⟩
  · rintro ⟨p, g, hp, hr⟩
    exact ⟨⟨p, g⟩, mem_located.mpr hp, hr⟩

lemma hasReducible_of_get? (h : e.get? p = some g) (hg : g.isReducible = true) :
    e.hasReducible = true := by
  rw [hasReducible_eq_isSome_target?]
  exact isSome_target?_iff.mpr ⟨p, g, h, hg⟩

/-- The target is the reducible group with the least path. -/
lemma target?_eq_some_iff : e.target? = some ⟨p, g⟩ ↔
    e.get? p = some g ∧ g.isReducible = true ∧
      ∀ q k, e.get? q = some k → k.isReducible = true → p ≤ q := by
  have hleast {p : Path} {g : Expr} (h : e.target? = some ⟨p, g⟩) (q : Path) (k : Expr)
      (hq : e.get? q = some k) (hk : k.isReducible = true) : p ≤ q := by
    rw [target?_eq_find?, List.find?_eq_some_iff_append] at h
    obtain ⟨-, before, after, hlocated, hbefore⟩ := h
    have hmem : ⟨q, k⟩ ∈ e.located := mem_located.mpr hq
    have hsorted := pairwise_located e
    rw [hlocated] at hmem hsorted
    rcases List.mem_append.mp hmem with hmem | hmem
    · exact absurd hk (by simpa using hbefore _ hmem)
    rcases List.mem_cons.mp hmem with heq | hmem
    · exact (congrArg Located.path heq).ge
    · have hafter := (List.pairwise_append.mp hsorted).2.1
      exact ((List.pairwise_cons.mp hafter).1 _ hmem).le
  constructor
  · intro h
    obtain ⟨hget, hr⟩ := get?_of_target? h
    exact ⟨hget, hr, hleast h⟩
  · rintro ⟨hp, hg, hall⟩
    -- there is a target, and each of the two paths is the least
    obtain ⟨⟨q, k⟩, ht⟩ := Option.isSome_iff_exists.mp (isSome_target?_iff.mpr ⟨p, g, hp, hg⟩)
    obtain ⟨hq, hk⟩ := get?_of_target? ht
    obtain rfl : p = q := le_antisymm (hall q k hq hk) (hleast ht p g hp hg)
    rw [ht, Option.some.inj (hp.symm.trans hq)]

/-! ### The search on its way back -/

mutual

/-- Looks for the target of an expression. On the way back from it the position of each child
that was entered is pushed behind the positions `pushed` that are there already. -/
def pushing (pushed : List Nat) : Expr → Option Expr × List Nat
  | .atom _ => (none, pushed)
  | .group children =>
      if isReducible (.group children) then (some (.group children), pushed)
      else pushingAmong pushed 0 children

/-- The same among neighbours, the first of which has the position `i`. What has been pushed
is handed on from each of them to the next. -/
def pushingAmong (pushed : List Nat) : Nat → List Expr → Option Expr × List Nat
  | _, [] => (none, pushed)
  | i, e :: es =>
      match pushing pushed e with
      | (some found, pushed') => (some found, pushed' ++ [i])
      | (none, pushed') => pushingAmong pushed' (i + 1) es

end

/-- The target, with the positions that were pushed turned round. -/
def searched (e : Expr) : Option Located :=
  match pushing [] e with
  | (some found, pushed) => some ⟨pushed.reverse, found⟩
  | (none, _) => none

/-- What the search pushes when it comes to this: the path from its end to its start. -/
def pushedFor (pushed : List Nat) : Option Located → Option Expr × List Nat
  | none => (none, pushed)
  | some t => (some t.node, pushed ++ t.path.reverse)

mutual

/-- A search pushes the path to the target, and nothing if there is none. -/
lemma pushing_eq (pushed : List Nat) : ∀ e : Expr, pushing pushed e = pushedFor pushed e.target?
  | .atom s => by rw [pushing, target?, pushedFor]
  | .group es => by
      rw [pushing, target?]
      split
      · rw [pushedFor, List.reverse_nil, List.append_nil]
      · exact pushingAmong_eq pushed 0 es

lemma pushingAmong_eq (pushed : List Nat) : ∀ (i : Nat) (es : List Expr),
    pushingAmong pushed i es = pushedFor pushed (targetAmong? i es)
  | _, [] => by rw [pushingAmong, targetAmong?, pushedFor]
  | i, e :: es => by
      rw [pushingAmong, targetAmong?, pushing_eq pushed e]
      cases e.target? with
      | none => exact pushingAmong_eq pushed (i + 1) es
      | some t => simp [pushedFor, Located.below]

end

/-- **The search finds the target with its path.** -/
theorem searched_eq_target? (e : Expr) : e.searched = e.target? := by
  rw [searched, pushing_eq]
  cases e.target? with
  | none => rfl
  | some t => simp [pushedFor]

/-! ### Reducible groups lie apart -/

/-- Inside a reducible group there is no other. -/
lemma isReducible_eq_false_of_get?_cons {i : Nat} (hg : g.isReducible = true)
    (hk : g.get? (i :: p) = some k) : k.isReducible = false := by
  cases g with
  | atom s => cases hk
  | group es =>
      rw [get?_group_cons, Option.bind_eq_some_iff] at hk
      obtain ⟨d, hd, hk⟩ := hk
      obtain ⟨s, rfl⟩ := exists_eq_atom_of_mem hg (List.mem_of_getElem? hd)
      cases p with
      | nil =>
          obtain rfl := Option.some.inj hk
          rfl
      | cons j p => cases hk

/-- The path to a reducible group goes on to no other. -/
lemma eq_of_isPrefix (hp : e.get? p = some g) (hg : g.isReducible = true)
    (hq : e.get? q = some k) (hk : k.isReducible = true) (h : p <+: q) : p = q := by
  obtain ⟨r, rfl⟩ := h
  rw [get?_append, hp, Option.bind_some] at hq
  cases r with
  | nil => rw [List.append_nil]
  | cons i r => exact absurd hk (by simp [isReducible_eq_false_of_get?_cons hg hq])

/-- The paths to two reducible groups part. -/
lemma apart_of_isReducible (hp : e.get? p = some g) (hg : g.isReducible = true)
    (hq : e.get? q = some k) (hk : k.isReducible = true) (hne : p ≠ q) : p.Apart q :=
  Path.apart_iff.mpr ⟨fun h => hne (eq_of_isPrefix hp hg hq hk h),
    fun h => hne (eq_of_isPrefix hq hk hp hg h).symm⟩

/-! ### All of it -/

/-- **The target is the leftmost innermost reducible group, with its true path.**

* There is a target exactly if some node is reducible, and the visit of all nodes answers
  the same. The search that pushes positions finds it.
* The node that is found with a path is at the end of this path and reducible, and of the
  paths to reducible nodes it is the lexicographically least.
* It is the first reducible node in pre-order.
* No reducible group lies inside another. -/
theorem target?_leftmost_innermost (e : Expr) :
    (e.target?.isSome = true ↔ ∃ p g, e.get? p = some g ∧ g.isReducible = true) ∧
      e.hasReducible = e.target?.isSome ∧ e.searched = e.target? ∧
      (∀ p g, e.target? = some ⟨p, g⟩ ↔
        e.get? p = some g ∧ g.isReducible = true ∧
          ∀ q k, e.get? q = some k → k.isReducible = true → p ≤ q) ∧
      e.target?.map Located.node = e.preOrder.find? isReducible ∧
      ∀ p q g k, e.get? p = some g → g.isReducible = true → e.get? q = some k →
        k.isReducible = true → p ≠ q → ¬ p <+: q ∧ ¬ q <+: p := by
  refine ⟨isSome_target?_iff, hasReducible_eq_isSome_target? e, searched_eq_target? e,
    fun p g => target?_eq_some_iff, map_node_target? e, fun p q g k hp hg hq hk hne => ?_⟩
  exact Path.apart_iff.mp (apart_of_isReducible hp hg hq hk hne)

/-- Groups that are never reduced, and groups around them, are passed over. -/
theorem target?_leftmost_innermost_deep :
    let cde := group [.atom "c", .atom "d", .atom "e"]
    let fg := group [.atom "f", .atom "g"]
    let e := group [.group [.atom "x"], .group [.group [.group [], .atom "b"], cde], fg]
    (e.searched = some ⟨[1, 1], cde⟩ ∧ e.get? [1, 1] = some cde ∧ e.hasReducible = true ∧
      e.preOrder.find? isReducible = some cde) ∧
    (e.get? [2] = some fg ∧ fg.isReducible = true ∧ ([1, 1] : Path) ≤ [2] ∧
      ¬ ([1, 1] : Path) <+: [2] ∧ ¬ ([2] : Path) <+: [1, 1]) := by
  intro cde fg e
  have ht : e.target? = some ⟨[1, 1], cde⟩ := by decide +kernel
  have hget : e.get? [2] = some fg := rfl
  have hfg : fg.isReducible = true := rfl
  obtain ⟨-, hvisit, hsearched, hleast, hfirst, hapart⟩ := target?_leftmost_innermost e
  obtain ⟨hcde, hr, hall⟩ := (hleast _ _).mp ht
  rw [ht] at hvisit hfirst
  exact ⟨⟨hsearched.trans ht, hcde, hvisit, hfirst.symm⟩, hget, hfg, hall _ _ hget hfg,
    hapart _ _ _ _ hcde hr hget hfg (by decide)⟩

end Innermost.Expr
