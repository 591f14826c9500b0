import Innermost.Palette
import Innermost.Proofs.Reducing.Nodes
import Innermost.Proofs.Tracing.Rereading

/-!
Painting colours the parentheses of groups, and nothing else.

* `Expr.pieces` cuts the text of an expression into words, spaces and parentheses, each
  parenthesis with the path to its group. Written plainly the pieces are the text
  (`flatMap_text_pieces`), and with each parenthesis in the colour of its depth they are the
  painted text (`flatMap_paintAt_pieces`).
* `count_pieces`: every group has one parenthesis of each side, and no other path has any.
  `exists_pieces_eq`: between the two of a group stands what its children are written as.
* `withoutColours` takes colour sequences out of a text. It takes nothing out of a text without
  an escape character, and exactly the paint off a painted text (`withoutColours_paint`).
* `paint_colours_groups` puts this together with the reading of what is left.
-/

namespace Innermost

/-! ### Pieces of a text -/

/-- The two parentheses of a group. -/
inductive Side where
  | opening
  | closing
  deriving DecidableEq

/-- The parenthesis on this side of a group. -/
def Side.text : Side → String
  | opening => "("
  | closing => ")"

/-- A piece of the text of an expression. -/
inductive Piece where
  /-- The word of an atom, or the space between neighbours. -/
  | plain (text : String)
  /-- A parenthesis of the group at the end of a path. -/
  | paren (side : Side) (group : Path)
  deriving DecidableEq

namespace Piece

/-- The same piece, seen from the parent of which `i` is the position of the former root. -/
def below (i : Nat) : Piece → Piece
  | plain text => plain text
  | paren side p => paren side (i :: p)

/-- The text of a piece. -/
def text : Piece → String
  | plain text => text
  | paren side _ => side.text

/-- The text of a piece below `depth` groups. A parenthesis stands between the sequences that
turn a colour on and off, that of the depth of its group, which is the length of the path
there. -/
def paintAt (depth : Nat) : Piece → String
  | plain text => text
  | paren side p =>
      "\x1b[" ++ (Colour.ofDepth (depth + p.length)).code ++ "m" ++ side.text ++ "\x1b[0m"

/-- The painted text of a piece. -/
def paint (x : Piece) : String := x.paintAt 0

@[simp] lemma text_plain (s : String) : (plain s).text = s := rfl

@[simp] lemma paintAt_plain (depth : Nat) (s : String) : (plain s).paintAt depth = s := rfl

@[simp] lemma text_below (i : Nat) (x : Piece) : (x.below i).text = x.text := by cases x <;> rfl

/-- A piece of a child is painted as one below one more group. -/
@[simp] lemma paintAt_below (depth i : Nat) (x : Piece) :
    (x.below i).paintAt depth = x.paintAt (depth + 1) := by
  cases x with
  | plain text => rfl
  | paren side p =>
      rw [below, paintAt, paintAt, List.length_cons, Nat.add_right_comm, Nat.add_assoc]

lemma below_injective (i : Nat) : Function.Injective (below i) := by
  intro x y h
  cases x <;> cases y <;> simp_all [below]

end Piece

namespace Expr

/-- The space before neighbours, if there are any. -/
def gapBefore (es : List Expr) : List Piece := if es.isEmpty then [] else [.plain " "]

mutual

/-- The pieces of the text of an expression. -/
def pieces : Expr → List Piece
  | .atom text => [.plain text]
  | .group children => .paren .opening [] :: (piecesAmong 0 children ++ [.paren .closing []])

/-- The pieces of the texts of neighbours, the first of which has the position `i`. -/
def piecesAmong : Nat → List Expr → List Piece
  | _, [] => []
  | i, e :: es => (pieces e).map (Piece.below i) ++ (gapBefore es ++ piecesAmong (i + 1) es)

end

/-! ### The text and the painted text -/

lemma textAll_cons (e : Expr) (es : List Expr) :
    (textAll (e :: es)).toList =
      e.text.toList ++ ((gapBefore es).flatMap (·.text.toList) ++ (textAll es).toList) := by
  cases es <;> simp [textAll, gapBefore]

mutual

/-- Written plainly the pieces are the text. -/
lemma flatMap_text_pieces : ∀ e : Expr, e.pieces.flatMap (·.text.toList) = e.text.toList
  | .atom s => by simp [pieces]
  | .group es => by
      rw [pieces, List.flatMap_cons, List.flatMap_append, flatMap_text_piecesAmong]
      simp [Piece.text, Side.text, text]

lemma flatMap_text_piecesAmong : ∀ (i : Nat) (es : List Expr),
    (piecesAmong i es).flatMap (·.text.toList) = (textAll es).toList
  | _, [] => by simp [piecesAmong, textAll]
  | i, e :: es => by
      rw [piecesAmong, List.flatMap_append, List.flatMap_append, flatMap_text_piecesAmong,
        textAll_cons, ← flatMap_text_pieces]
      simp [List.flatMap_map]

end

lemma paintAllAt_cons (depth : Nat) (e : Expr) (es : List Expr) :
    (paintAllAt (depth + 1) (e :: es)).toList =
      (e.paintAt (depth + 1)).toList ++
        ((gapBefore es).flatMap (fun x => (x.paintAt depth).toList) ++
          (paintAllAt (depth + 1) es).toList) := by
  cases es <;> simp [paintAllAt, gapBefore]

mutual

/-- Each in the colour of its depth, the pieces are the painted text. -/
lemma flatMap_paintAt_pieces : ∀ (depth : Nat) (e : Expr),
    e.pieces.flatMap (fun x => (x.paintAt depth).toList) = (e.paintAt depth).toList
  | _, .atom s => by simp [pieces, paintAt]
  | depth, .group es => by
      rw [pieces, List.flatMap_cons, List.flatMap_append, flatMap_paintAt_piecesAmong]
      simp [Piece.paintAt, Side.text, paintAt, Colour.paint]

lemma flatMap_paintAt_piecesAmong : ∀ (depth i : Nat) (es : List Expr),
    (piecesAmong i es).flatMap (fun x => (x.paintAt depth).toList) =
      (paintAllAt (depth + 1) es).toList
  | _, _, [] => by simp [piecesAmong, paintAllAt]
  | depth, i, e :: es => by
      rw [piecesAmong, List.flatMap_append, List.flatMap_append, flatMap_paintAt_piecesAmong,
        paintAllAt_cons, ← flatMap_paintAt_pieces]
      simp [List.flatMap_map]

end

/-! ### The parentheses of a group -/

section Parentheses

variable (side : Side) (i j : Nat) (q : Path) (xs : List Piece)

/-- A child has no parenthesis of the group around it. -/
lemma count_map_below_nil : (xs.map (Piece.below i)).count (.paren side []) = 0 := by
  rw [List.count_eq_zero, List.mem_map]
  rintro ⟨x, -, h⟩
  cases x <;> cases h

/-- Seen from the parent, the groups in a child are below its position. -/
lemma count_map_below_cons :
    (xs.map (Piece.below i)).count (.paren side (j :: q)) =
      if i = j then xs.count (.paren side q) else 0 := by
  split_ifs with hij
  · subst hij
    exact List.count_map_of_injective xs _ (Piece.below_injective i) (.paren side q)
  · rw [List.count_eq_zero, List.mem_map]
    rintro ⟨x, -, h⟩
    cases x with
    | plain s => cases h
    | paren side' p =>
        rw [Piece.below, Piece.paren.injEq] at h
        exact hij (List.cons.inj h.2).1

end Parentheses

lemma count_gapBefore (side : Side) (p : Path) (es : List Expr) :
    (gapBefore es).count (.paren side p) = 0 := by
  rw [gapBefore]
  split_ifs <;> simp

lemma count_piecesAmong_nil (side : Side) (i : Nat) (es : List Expr) :
    (piecesAmong i es).count (.paren side []) = 0 := by
  induction es generalizing i with
  | nil => simp [piecesAmong]
  | cons e es ih =>
      rw [piecesAmong, List.count_append, List.count_append, count_map_below_nil,
        count_gapBefore, ih]

/-- No group in neighbours is in a child further to the left. -/
lemma count_piecesAmong_of_lt (side : Side) {i j : Nat} (h : j < i) (q : Path) (es : List Expr) :
    (piecesAmong i es).count (.paren side (j :: q)) = 0 := by
  induction es generalizing i with
  | nil => simp [piecesAmong]
  | cons e es ih =>
      rw [piecesAmong, List.count_append, List.count_append, count_map_below_cons,
        if_neg h.ne', count_gapBefore, ih (Nat.lt_succ_of_lt h)]

/-- The parentheses of a group in neighbours are those that it has in one of them. -/
lemma count_piecesAmong (side : Side) (i j : Nat) (q : Path) (es : List Expr) :
    (piecesAmong i es).count (.paren side ((i + j) :: q)) =
      (es[j]?.map fun d => d.pieces.count (.paren side q)).getD 0 := by
  induction es generalizing i j with
  | nil => simp [piecesAmong]
  | cons e es ih =>
      rw [piecesAmong, List.count_append, List.count_append, count_map_below_cons,
        count_gapBefore]
      cases j with
      | zero => simp [count_piecesAmong_of_lt]
      | succ j =>
          rw [if_neg (by omega), List.getElem?_cons_succ, ← ih (i + 1) j]
          simp [Nat.add_comm, Nat.add_left_comm]

/-- **Every group has one parenthesis on each side**, and there are no other parentheses. -/
lemma count_pieces (side : Side) (e : Expr) (q : Path) :
    e.pieces.count (.paren side q) = if (e.get? q).any (!·.isAtom) then 1 else 0 := by
  induction q generalizing e with
  | nil =>
      cases e with
      | atom s => simp [pieces, isAtom]
      | group es =>
          rw [pieces, List.count_cons, List.count_append, count_piecesAmong_nil]
          cases side <;> simp [isAtom]
  | cons i q ih =>
      cases e with
      | atom s => simp [pieces]
      | group es =>
          rw [pieces, List.count_cons, List.count_append, ← Nat.zero_add i, count_piecesAmong]
          cases hd : es[0 + i]? with
          | none => simp_all
          | some d => simp_all

/-- The pieces of a child stand among those of its neighbours. -/
lemma exists_piecesAmong_eq {es : List Expr} {i : Nat} {d : Expr} (hd : es[i]? = some d) (k : Nat) :
    ∃ pre suf, piecesAmong k es = pre ++ (d.pieces.map (Piece.below (k + i)) ++ suf) := by
  induction es generalizing i k with
  | nil => simp at hd
  | cons e es ih =>
      cases i with
      | zero =>
          obtain rfl : e = d := by simpa using hd
          exact ⟨[], gapBefore es ++ piecesAmong (k + 1) es, by rw [piecesAmong]; rfl⟩
      | succ i =>
          obtain ⟨pre, suf, h⟩ := ih (i := i) (by simpa using hd) (k + 1)
          refine ⟨e.pieces.map (Piece.below k) ++ (gapBefore es ++ pre), suf, ?_⟩
          rw [piecesAmong, h, Nat.add_right_comm, Nat.add_assoc]
          simp

/-- **Between the two parentheses of a group stands what its children are written as.** -/
lemma exists_pieces_eq {e : Expr} {q : Path} {es : List Expr} (h : e.get? q = some (.group es)) :
    ∃ pre inner suf,
      e.pieces = pre ++ .paren .opening q :: (inner ++ .paren .closing q :: suf) ∧
      inner.flatMap (·.text.toList) = (textAll es).toList := by
  induction q generalizing e with
  | nil =>
      obtain rfl : e = .group es := by simpa using h
      exact ⟨[], piecesAmong 0 es, [], by rw [pieces]; rfl, flatMap_text_piecesAmong 0 es⟩
  | cons i q ih =>
      cases e with
      | atom s => simp at h
      | group cs =>
          rw [get?_group_cons, Option.bind_eq_some_iff] at h
          obtain ⟨d, hd, hgroup⟩ := h
          obtain ⟨pre, inner, suf, hpieces, hinner⟩ := ih hgroup
          obtain ⟨before, after, hamong⟩ := exists_piecesAmong_eq hd 0
          refine ⟨.paren .opening [] :: (before ++ pre.map (Piece.below i)),
            inner.map (Piece.below i), suf.map (Piece.below i) ++ (after ++ [.paren .closing []]),
            ?_, ?_⟩
          · rw [pieces, hamong, hpieces, Nat.zero_add]
            simp [Piece.below]
          · rw [← hinner, List.flatMap_map]
            simp

mutual

/-- What is left plain is a word or a space. -/
lemma eq_space_or_mem_nodes : ∀ {e : Expr} {s : String}, .plain s ∈ e.pieces →
    s = " " ∨ .atom s ∈ e.nodes
  | .atom t, s, h => by
      rw [pieces, List.mem_singleton, Piece.plain.injEq] at h
      exact .inr (by simp [nodes, h])
  | .group es, s, h => by
      have hamong : .plain s ∈ piecesAmong 0 es := by simpa [pieces] using h
      exact (eq_space_or_mem_nodesAll hamong).imp_right fun hs => by simp [nodes, hs]

lemma eq_space_or_mem_nodesAll : ∀ {i : Nat} {es : List Expr} {s : String},
    .plain s ∈ piecesAmong i es → s = " " ∨ .atom s ∈ nodesAll es
  | _, [], _, h => by simp [piecesAmong] at h
  | i, e :: es, s, h => by
      rw [piecesAmong, List.mem_append, List.mem_append, List.mem_map] at h
      rw [nodesAll_cons, List.mem_append]
      rcases h with ⟨x, hx, hs⟩ | hgap | hes
      · cases x with
        | paren side p => cases hs
        | plain s' =>
            obtain rfl := Piece.plain.inj hs
            exact (eq_space_or_mem_nodes hx).imp_right .inl
      · rw [gapBefore] at hgap
        split_ifs at hgap
        · cases hgap
        · exact .inl (Piece.plain.inj (List.mem_singleton.mp hgap))
      · exact (eq_space_or_mem_nodesAll hes).imp_right .inr

end

end Expr

/-! ### Taking the colours off -/

/-- The characters of the numbers that select a colour. -/
def isColourPart (c : Char) : Bool := c.isDigit || c = ';'

/-- What stands behind the sequence of characters that selects a colour, if the text begins with
one: an escape character, `[`, numbers, and `m`. -/
def behindColour? : List Char → Option (List Char)
  | '\x1b' :: '[' :: cs =>
      match cs.dropWhile isColourPart with
      | 'm' :: rest => some rest
      | _ => none
  | _ => none

lemma length_lt_of_behindColour? {cs rest : List Char} (h : behindColour? cs = some rest) :
    rest.length < cs.length := by
  rw [behindColour?.eq_def] at h
  split at h
  · rename_i cs
    have hle : (cs.dropWhile isColourPart).length ≤ cs.length :=
      (List.dropWhile_sublist isColourPart).length_le
    split at h
    · rename_i rest' hrest
      cases h
      rw [hrest, List.length_cons] at hle
      rw [List.length_cons, List.length_cons]
      omega
    · cases h
  · cases h

/-- The characters without those that select colours. -/
def uncoloured : List Char → List Char
  | [] => []
  | c :: cs =>
      match _h : behindColour? (c :: cs) with
      | some rest => uncoloured rest
      | none => c :: uncoloured cs
termination_by cs => cs.length
decreasing_by
  · exact length_lt_of_behindColour? _h
  · exact Nat.lt_succ_self _

/-- The text without the sequences of characters that select colours. -/
def withoutColours (text : String) : String := String.ofList (uncoloured text.toList)

lemma uncoloured_of_some {cs rest : List Char} (h : behindColour? cs = some rest) :
    uncoloured cs = uncoloured rest := by
  cases cs with
  | nil => cases h
  | cons c cs =>
      rw [uncoloured]
      split
      · rename_i rest' h'
        rw [Option.some.inj (h.symm.trans h')]
      · rename_i h'
        cases h.symm.trans h'

lemma uncoloured_cons {c : Char} (h : c ≠ '\x1b') (cs : List Char) :
    uncoloured (c :: cs) = c :: uncoloured cs := by
  have hnone : behindColour? (c :: cs) = none := by
    rw [behindColour?.eq_def]
    split
    · rename_i heq
      exact absurd (List.cons.inj heq).1 h
    · rfl
  rw [uncoloured]
  split
  · rename_i h'
    cases hnone.symm.trans h'
  · rfl

/-- Nothing is taken out where there is no escape character. -/
lemma uncoloured_append {cs : List Char} (h : '\x1b' ∉ cs) (ds : List Char) :
    uncoloured (cs ++ ds) = cs ++ uncoloured ds := by
  induction cs with
  | nil => rfl
  | cons c cs ih =>
      rw [List.mem_cons, not_or] at h
      rw [List.cons_append, uncoloured_cons (Ne.symm h.1), ih h.2, List.cons_append]

/-- The sequences around a text that is painted are taken out again. -/
lemma uncoloured_paint (colour : Colour) {text : String} (h : '\x1b' ∉ text.toList)
    (cs : List Char) :
    uncoloured (("\x1b[" ++ colour.code ++ "m" ++ text ++ "\x1b[0m").toList ++ cs) =
      text.toList ++ uncoloured cs := by
  have hoff : uncoloured ('\x1b' :: '[' :: '0' :: 'm' :: cs) = uncoloured cs :=
    uncoloured_of_some rfl
  have hon (ds : List Char) :
      uncoloured ('\x1b' :: '[' :: (colour.code.toList ++ 'm' :: ds)) = uncoloured ds :=
    uncoloured_of_some (by cases colour <;> rfl)
  have hpaint : ("\x1b[" ++ colour.code ++ "m" ++ text ++ "\x1b[0m").toList ++ cs =
      '\x1b' :: '[' :: (colour.code.toList ++
        'm' :: (text.toList ++ '\x1b' :: '[' :: '0' :: 'm' :: cs)) := by
    simp
  rw [hpaint, hon, uncoloured_append h, hoff]

/-- Two depths have one colour exactly if they differ by a multiple of seven. -/
lemma code_ofDepth_eq_iff {a b : Nat} :
    (Colour.ofDepth a).code = (Colour.ofDepth b).code ↔ a % 7 = b % 7 := by
  have hinj : ∀ i j : Fin 7,
      (Colour.ofRemainder i).code = (Colour.ofRemainder j).code ↔ i = j := by decide
  rw [Colour.ofDepth, Colour.ofDepth, hinj, Fin.ext_iff]
  rfl

namespace Expr

variable {e : Expr}

/-- **Painting is undone by taking the colours off**, unless an atom brings an escape character
of its own. -/
lemma withoutColours_paint (h : ∀ word, .atom word ∈ e.nodes → '\x1b' ∉ word.toList) :
    withoutColours e.paint = e.text := by
  have hpieces : ∀ x ∈ e.pieces, '\x1b' ∉ x.text.toList := by
    intro x hx
    cases x with
    | paren side p =>
        rw [Piece.text]
        cases side <;> decide
    | plain s =>
        obtain rfl | hs := eq_space_or_mem_nodes hx
        · decide
        · exact h s hs
  have hstep (xs : List Piece) (hxs : ∀ x ∈ xs, '\x1b' ∉ x.text.toList) :
      uncoloured (xs.flatMap fun x => x.paint.toList) = xs.flatMap (·.text.toList) := by
    induction xs with
    | nil => rw [List.flatMap_nil, List.flatMap_nil, uncoloured]
    | cons x xs ih =>
        have hx := hxs x List.mem_cons_self
        have hrest := ih fun y hy => hxs y (.tail _ hy)
        rw [List.flatMap_cons, List.flatMap_cons, ← hrest]
        cases x with
        | plain s => exact uncoloured_append hx _
        | paren side p => exact uncoloured_paint _ hx _
  have hpaint : (e.pieces.flatMap fun x => x.paint.toList) = e.paint.toList :=
    flatMap_paintAt_pieces 0 e
  rw [withoutColours, ← hpaint, hstep e.pieces hpieces, flatMap_text_pieces, String.ofList_toList]

/-- **Painting colours the parentheses of groups by depth, and nothing else.**

* The pieces of an expression are its text, and the painted text if each parenthesis stands
  between the sequences for the colour of its depth. All other pieces are words and spaces, and
  stay plain.
* The parentheses are those of the groups, one on each side, and between them stands what the
  children of the group are written as.
* Parentheses have one colour exactly if their depths differ by a multiple of seven, and so the
  two of one group do.
* Unless an atom holds an escape character, the text is left when the colours are taken off, and
  an expression that was read is read from it again. -/
theorem paint_colours_groups (e : Expr) :
    (e.pieces.flatMap (·.text.toList) = e.text.toList ∧
      e.pieces.flatMap (·.paint.toList) = e.paint.toList ∧
      ∀ s, .plain s ∈ e.pieces → s = " " ∨ .atom s ∈ e.preOrder) ∧
    (∀ (q : Path) (side : Side),
      e.pieces.count (.paren side q) = if (e.get? q).any (!·.isAtom) then 1 else 0) ∧
    (∀ (q : Path) (es : List Expr), e.get? q = some (.group es) → ∃ pre inner suf,
      e.pieces = pre ++ .paren .opening q :: (inner ++ .paren .closing q :: suf) ∧
        inner.flatMap (·.text.toList) = (textAll es).toList) ∧
    (∀ a b : Nat, (Colour.ofDepth a).code = (Colour.ofDepth b).code ↔ a % 7 = b % 7) ∧
    ((∀ word, .atom word ∈ e.preOrder → '\x1b' ∉ word.toList) →
      withoutColours e.paint = e.text ∧
        ∀ source, parse source = .ok e → parse (withoutColours e.paint) = .ok e) := by
  rw [preOrder_eq_nodes]
  refine ⟨⟨flatMap_text_pieces e, flatMap_paintAt_pieces 0 e, fun s => eq_space_or_mem_nodes⟩,
    fun q side => count_pieces side e q, fun q es => exists_pieces_eq,
    fun a b => code_ofDepth_eq_iff, fun h => ?_⟩
  have hpaint := withoutColours_paint h
  refine ⟨hpaint, fun source hparse => ?_⟩
  rw [hpaint]
  exact (readable_of_parse hparse).parse_text

/-- In `(f(x () ((a) b))` the parenthesis in the first word stays plain, the empty group and the
one with `a` have their own colours, and the text is left when these are taken off. -/
theorem paint_colours_groups_nested :
    let e := group [.atom "f(x", .group [], .group [.group [.atom "a"], .atom "b"]]
    parse "(f(x () ((a) b))" = .ok e ∧
      e.paint = "\x1b[34m(\x1b[0mf(x \x1b[33m(\x1b[0m\x1b[33m)\x1b[0m " ++
        "\x1b[33m(\x1b[0m\x1b[35m(\x1b[0ma\x1b[35m)\x1b[0m b\x1b[33m)\x1b[0m\x1b[34m)\x1b[0m" ∧
      e.pieces.count (.paren .opening [2, 0]) = 1 ∧
      e.pieces.count (.paren .closing [0]) = 0 ∧
      withoutColours e.paint = "(f(x () ((a) b))" ∧
      parse (withoutColours e.paint) = .ok e := by
  intro e
  have hparse : parse "(f(x () ((a) b))" = .ok e := by decide +kernel
  have hplain : ∀ word, .atom word ∈ e.preOrder → '\x1b' ∉ word.toList := by
    intro word hword
    rw [preOrder_eq_nodes] at hword
    simp [e, nodes] at hword
    rcases hword with rfl | rfl | rfl <;> decide
  obtain ⟨-, hcount, -, -, hstrip⟩ := paint_colours_groups e
  obtain ⟨htext, hread⟩ := hstrip hplain
  exact ⟨hparse, by decide +kernel, hcount [2, 0] .opening, hcount [0] .closing, htext,
    hread _ hparse⟩

end Expr

end Innermost
