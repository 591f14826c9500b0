import Innermost.Proofs.Rendering.Marking

/-!
To write an expression with a text in place of one of its nodes is to exchange the node and then
to write the expression.

* `Expr.writeMarked` writes an expression piece by piece behind what has been written before. It
  follows the path to the node as it writes the children of a group, each but the first behind a
  space (`spacedFrom`).
* `writeMarked_eq`: it adds the text of the expression with the piece in place of the node, and
  leaves what has been written before as it is.
* `renderMarked_eq_text_replace`: so it writes the expression in which the node is exchanged for
  an atom. A path that leads nowhere changes nothing in either.
-/

namespace Innermost

/-- What stands in place of a node: the text with its mark, or as it is if it has none. -/
def Marker.shown (marker : Marker) (text : String) : Option Mark → String
  | some mark => marker mark text
  | none => text

/-- Texts with a space before each but the first of all, if `j` others stand before them. -/
def spacedFrom : Nat → List String → String
  | _, [] => ""
  | j, text :: texts => (if 0 < j then " " else "") ++ text ++ spacedFrom (j + 1) texts

lemma spacedFrom_succ_cons (j : Nat) (text : String) (texts : List String) :
    spacedFrom (j + 1) (text :: texts) = " " ++ " ".intercalate (text :: texts) := by
  induction texts generalizing j text with
  | nil => simp [spacedFrom]
  | cons next texts ih =>
      rw [spacedFrom, if_pos (Nat.succ_pos j), ih]
      simp [String.append_assoc]

lemma spacedFrom_zero (texts : List String) : spacedFrom 0 texts = " ".intercalate texts := by
  rcases texts with _ | ⟨text, _ | ⟨next, texts⟩⟩
  · simp [spacedFrom]
  · simp [spacedFrom]
  · rw [spacedFrom, spacedFrom_succ_cons]
    simp [String.append_assoc]

namespace Expr

/-! ### Writing piece by piece -/

section Write

variable (marker : Marker) (mark : Option Mark) (text : String)

mutual

/-- Writes an expression behind `out`, with a marked text in place of the node at the end of a
path. Where no path leads, and where the path cannot be followed, it is written as it is. -/
def writeMarked : (out : String) → Option Path → Expr → String
  | out, none, e => out ++ e.text
  | out, some [], _ => out ++ marker.shown text mark
  | out, some (_ :: _), .atom word => out ++ word
  | out, some (i :: path), .group children => writeAmong (out ++ "(") i path 0 children ++ ")"

/-- Writes the children of a group, the first of which has the position `j`. The path leads into
the one with the position `i`, and goes on with `path` there. -/
def writeAmong : (out : String) → (i : Nat) → (path : Path) → (j : Nat) → List Expr → String
  | out, _, _, _, [] => out
  | out, i, path, j, e :: es =>
      let out := if 0 < j then out ++ " " else out
      writeAmong (writeMarked out (if j = i then some path else none) e) i path (j + 1) es

end

/-- The text of an expression with a piece in place of the node at the end of a path, if there is
a path. -/
def textAt (piece : String) : Option Path → Expr → String
  | none, e => e.text
  | some path, e => e.textWith piece path

mutual

/-- What is written stands behind what has been written before. -/
lemma writeMarked_eq : ∀ (e : Expr) (out : String) (path : Option Path),
    writeMarked marker mark text out path e = out ++ e.textAt (marker.shown text mark) path
  | e, out, none => by rw [writeMarked, textAt]
  | e, out, some [] => by rw [writeMarked, textAt, textWith]
  | .atom word, out, some (i :: path) => by rw [writeMarked, textAt, textWith]
  | .group es, out, some (i :: path) => by
      rw [writeMarked, writeAmong_eq, spacedFrom_zero, textAt, textWith]
      simp [String.append_assoc]

lemma writeAmong_eq : ∀ (es : List Expr) (out : String) (i : Nat) (path : Path) (j : Nat),
    writeAmong marker mark text out i path j es = out ++ spacedFrom j (es.mapIdx fun k e =>
      if j + k = i then e.textWith (marker.shown text mark) path else e.text)
  | [], out, i, path, j => by simp [writeAmong, spacedFrom]
  | e :: es, out, i, path, j => by
      have hchild : e.textAt (marker.shown text mark) (if j = i then some path else none) =
          if j + 0 = i then e.textWith (marker.shown text mark) path else e.text := by
        rw [Nat.add_zero]
        split_ifs <;> rfl
      have hgap : (if 0 < j then out ++ " " else out) = out ++ if 0 < j then " " else "" := by
        split_ifs <;> simp
      rw [writeAmong, writeAmong_eq, writeMarked_eq, List.mapIdx_cons, spacedFrom, hchild, hgap]
      simp only [String.append_assoc, Nat.add_right_comm, Nat.add_assoc]

end

end Write

/-- The text of an expression with a marked text in place of the node at the end of a path. -/
def renderMarked (e : Expr) (path : Path) (text : String) (mark : Option Mark) (marker : Marker) :
    String :=
  e.writeMarked marker mark text "" (some path)

/-! ### Exchanging and writing -/

section Exchange

variable (e : Expr) (path : Path) (text : String) (mark : Option Mark) (marker : Marker)

/-- The lines of traces and of renderings are written in this way. -/
lemma renderMarked_eq_textWith :
    e.renderMarked path text mark marker = e.textWith (marker.shown text mark) path := by
  rw [renderMarked, writeMarked_eq, String.empty_append, textAt]

lemma renderMarked_eq :
    e.renderMarked path text mark marker =
      (e.replace path (.atom (marker.shown text mark))).text := by
  rw [renderMarked_eq_textWith, ← textWith_text, text_atom]

end Exchange

/-- **To write an expression with a text in place of one of its nodes is to exchange the node for
an atom and to write what this leaves.** So it is with a mark and without one, and whatever the
path is. Where it leads nowhere, both are the text of the expression. -/
theorem renderMarked_eq_text_replace (e : Expr) (path : Path) (text : String) (marker : Marker) :
    (∀ mark, e.renderMarked path text (some mark) marker =
      (e.replace path (.atom (marker mark text))).text) ∧
    e.renderMarked path text none marker = (e.replace path (.atom text)).text ∧
    (∀ mark, e.renderMarked path text mark marker =
      e.textWith (marker.shown text mark) path) ∧
    (e.get? path = none → ∀ mark new,
      e.renderMarked path text mark marker = e.text ∧ (e.replace path new).text = e.text) := by
  refine ⟨fun mark => renderMarked_eq e path text (some mark) marker,
    renderMarked_eq e path text none marker,
    fun mark => renderMarked_eq_textWith e path text mark marker, fun hnone mark new => ?_⟩
  rw [renderMarked_eq, replace_of_get?_eq_none hnone, replace_of_get?_eq_none hnone]
  exact ⟨rfl, rfl⟩

/-- Behind the last child, and below an atom, a path leads nowhere. -/
theorem renderMarked_eq_text_replace_outside :
    let e := group [atom "a", group [atom "b", atom "c"]]
    e.renderMarked [1, 0] "x" (some .target) .brackets = "(a ([x] c))" ∧
      (e.get? [5] = none ∧ e.renderMarked [5] "x" (some .target) .brackets = "(a (b c))") ∧
      (e.get? [1, 1, 0] = none ∧
        e.renderMarked [1, 1, 0] "x" none .brackets = "(a (b c))" ∧
        (e.replace [1, 1, 0] (atom "x")).text = "(a (b c))") := by
  intro e
  have htext : e.text = "(a (b c))" := by decide +kernel
  have hinside : (e.replace [1, 0] (atom "[x]")).text = "(a ([x] c))" := by decide +kernel
  obtain ⟨hmarked, -⟩ := renderMarked_eq_text_replace e [1, 0] "x" .brackets
  obtain ⟨-, -, -, hbehind⟩ := renderMarked_eq_text_replace e [5] "x" .brackets
  obtain ⟨-, -, -, hbelow⟩ := renderMarked_eq_text_replace e [1, 1, 0] "x" .brackets
  have hbehind := (hbehind rfl (some .target) e).1
  have hbelow := hbelow rfl none (atom "x")
  rw [htext] at hbehind hbelow
  exact ⟨(hmarked .target).trans hinside, ⟨rfl, hbehind⟩, rfl, hbelow⟩

end Expr

end Innermost
