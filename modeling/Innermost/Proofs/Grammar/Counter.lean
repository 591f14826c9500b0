import Innermost.Proofs.Grammar.Scan

/-!
The readers with a count of the groups that are open.

* `Cursor.Passes`: how one place is reached from another. A call passes characters and
  gives none back, and it passes at least one if it reads an expression (`Answer`).
* `Parser`: a place, and how many groups are open there. Its readers count up behind the
  `(` of a group, and down again where they are done with the group, whether it has been
  read or not.
* `Call.run_agrees`: they answer as the readers do that are told how many more groups may
  be opened, and the count is what it was before.
-/

namespace Innermost

/-! ### Ways through a text -/

/-- From `c`, past the characters `taken`, to `c'`. -/
structure Cursor.Passes (c : Cursor) (taken : List Char) (c' : Cursor) : Prop where
  rest_eq : c.rest = taken ++ c'.rest
  passed_eq : c'.passed = taken.reverse ++ c.passed

namespace Cursor

variable {c c' c'' : Cursor} {taken taken' : List Char}

lemma Passes.refl (c : Cursor) : c.Passes [] c := ⟨rfl, rfl⟩

lemma Passes.trans (h : c.Passes taken c') (h' : c'.Passes taken' c'') :
    c.Passes (taken ++ taken') c'' where
  rest_eq := by rw [h.rest_eq, h'.rest_eq, List.append_assoc]
  passed_eq := by rw [h'.passed_eq, h.passed_eq, List.reverse_append, List.append_assoc]

lemma passes_skipWhile (p : Char → Bool) (c : Cursor) :
    c.Passes (c.rest.takeWhile p) (c.skipWhile p) :=
  ⟨List.takeWhile_append_dropWhile.symm, rfl⟩

lemma passes_skipBlanks (c : Cursor) : c.Passes (c.rest.takeWhile isBlank) c.skipBlanks :=
  passes_skipWhile isBlank c

lemma passes_next {x : Char} (h : c.peek? = some x) : c.Passes [x] c.next where
  rest_eq := rest_of_peek h
  passed_eq := by
    rw [next, rest_of_peek h]
    rfl

/-- No character is read twice. -/
lemma Passes.length_rest (h : c.Passes taken c') :
    c.rest.length = taken.length + c'.rest.length := by
  rw [h.rest_eq, List.length_append]

lemma Passes.offset_eq (h : c.Passes taken c') : c'.offset = c.offset + byteLength taken := by
  rw [offset, h.passed_eq, byteLength_append, byteLength_reverse, Nat.add_comm]
  rfl

end Cursor

namespace Reading

/-- A gap makes no difference to a reader. -/
lemma element_skipBlanks (room : Nat) (c : Cursor) :
    element room c.skipBlanks = element room c := by
  conv_lhs => unfold element
  conv_rhs => unfold element
  rw [Cursor.skipBlanks_skipBlanks]

lemma full_of_expr_error {c c' : Cursor} {d : Diagnostic} (h : expr c = ⟨.error d, c'⟩) :
    full c = ⟨.error d, c'⟩ := by
  rw [full, h]

lemma full_of_expr {c c' : Cursor} {e : Expr} (h : expr c = ⟨.ok e, c'⟩) :
    full c =
      ⟨if c'.skipBlanks.atEnd then .ok e
        else .error ⟨.read .trailingText, [c'.skipBlanks.remainingSpan]⟩, c'.skipBlanks⟩ := by
  rw [full, h]
  dsimp only
  split_ifs <;> rfl

end Reading

/-! ### Answers -/

/-- A place in a text, and how many groups are open there. -/
structure Parser where
  cursor : Cursor
  openGroups : Nat

/-- What a call at `p` answers, and the parser after it. -/
structure Answer (p : Parser) where
  result : Except Diagnostic Expr
  after : Parser
  /-- An expression has at least one character. -/
  passes : ∃ taken, p.cursor.Passes taken after.cursor ∧ ∀ e, result = .ok e → taken ≠ []

namespace Parser

/-- No group is open before a text. -/
def ofText (text : String) : Parser := ⟨.ofText text, 0⟩

/-- How much is left to read. -/
def left (p : Parser) : Nat := p.cursor.rest.length

/-- The parser behind a gap. -/
def skipBlanks (p : Parser) : Parser := { p with cursor := p.cursor.skipBlanks }

/-- The parser behind the next character. -/
def next (p : Parser) : Parser := { p with cursor := p.cursor.next }

/-- The parser inside one group more. -/
def enter (p : Parser) : Parser := { p with openGroups := p.openGroups + 1 }

/-- The parser outside of the group that was opened last. -/
def leave (p : Parser) : Parser := { p with openGroups := p.openGroups - 1 }

lemma cursor_skipBlanks (p : Parser) : p.skipBlanks.cursor = p.cursor.skipBlanks := rfl

lemma openGroups_skipBlanks (p : Parser) : p.skipBlanks.openGroups = p.openGroups := rfl

lemma passes_skipBlanks (p : Parser) :
    ∃ taken, p.cursor.Passes taken p.skipBlanks.cursor :=
  ⟨_, p.cursor.passes_skipBlanks⟩

lemma left_le {p q : Parser} (h : ∃ taken, p.cursor.Passes taken q.cursor) : q.left ≤ p.left := by
  obtain ⟨taken, h⟩ := h
  exact Nat.le.intro ((Nat.add_comm _ _).trans h.length_rest.symm)

lemma left_lt {p q : Parser} {taken : List Char} (h : p.cursor.Passes taken q.cursor)
    (hne : taken ≠ []) : q.left < p.left := by
  have hpos := List.length_pos_of_ne_nil hne
  have hlen : p.left = taken.length + q.left := h.length_rest
  omega

end Parser

namespace Answer

variable {p q : Parser}

/-- What a call comes to that goes from `p` to `q` first. -/
def via (h : ∃ taken, p.cursor.Passes taken q.cursor) (a : Answer q) : Answer p where
  result := a.result
  after := a.after
  passes := by
    obtain ⟨taken, h⟩ := h
    obtain ⟨taken', h', hne⟩ := a.passes
    exact ⟨taken ++ taken', h.trans h', fun e he hnil =>
      hne e he (List.append_eq_nil_iff.mp hnil).2⟩

/-- A call that fails where it began. -/
def failAt (p : Parser) (d : Diagnostic) : Answer p :=
  ⟨.error d, p, [], .refl _, nofun⟩

/-- A call that has found `e` and moves on behind the next character. -/
def readAt (p : Parser) (e : Expr) {x : Char} (h : p.cursor.peek? = some x) : Answer p :=
  ⟨.ok e, p.next, [x], Cursor.passes_next h, nofun⟩

/-- What a call comes to that reads a group which begins at `p`. -/
def leave {x : Char} (h : p.cursor.peek? = some x) (a : Answer p.next.enter) : Answer p where
  result := a.result
  after := a.after.leave
  passes := by
    obtain ⟨taken, h', -⟩ := a.passes
    exact ⟨x :: taken, (Cursor.passes_next h).trans h', nofun⟩

lemma passes_after (a : Answer p) : ∃ taken, p.cursor.Passes taken a.after.cursor :=
  a.passes.imp fun _ h => h.1

lemma left_lt (a : Answer p) {e : Expr} (he : a.result = .ok e) : a.after.left < p.left := by
  obtain ⟨taken, h, hne⟩ := a.passes
  exact Parser.left_lt h (hne e he)

/-- Goes on with `next` where a call has read an expression. -/
def andThen (a : Answer p) (next : ∀ e, a.result = .ok e → Answer a.after) : Answer p :=
  match h : a.result with
  | .error _ => a
  | .ok e => .via a.passes_after (next e h)

lemma andThen_of_error {a : Answer p} {next : ∀ e, a.result = .ok e → Answer a.after}
    {d : Diagnostic} (h : a.result = .error d) : a.andThen next = a := by
  unfold andThen
  split
  · rfl
  · simp_all

lemma andThen_of_ok {a : Answer p} {next : ∀ e, a.result = .ok e → Answer a.after} {e : Expr}
    (h : a.result = .ok e) : a.andThen next = .via a.passes_after (next e h) := by
  unfold andThen
  split
  · simp_all
  · rename_i e' h'
    obtain rfl : e' = e := Except.ok.inj (h'.symm.trans h)
    rfl

end Answer

namespace Parser

/-! ### Readers -/

/-- The fault at the next character. -/
def faultHere (p : Parser) (fault : ReadFault) : Diagnostic := ⟨.read fault, [p.cursor.span]⟩

/-- Reads an atom, which opens no group. -/
def atom (p : Parser) : Answer p where
  result := (Reading.atom p.cursor).result
  after := { p with cursor := (Reading.atom p.cursor).cursor }
  passes := by
    have hskip := p.cursor.passes_skipBlanks
    simp only [Reading.atom]
    split_ifs with hend hword
    · exact ⟨_, hskip, nofun⟩
    · exact ⟨_, hskip, nofun⟩
    · refine ⟨_, hskip.trans (Cursor.passes_skipWhile Reading.isAtomChar _), fun _ _ hnil => ?_⟩
      rw [(List.append_eq_nil_iff.mp hnil).2] at hword
      exact hword rfl

-- A reader calls another one with fewer characters left, or with as many and a smaller
-- summand: 3 for children, 2 for an expression, 1 for a group.
mutual

/-- Reads an expression: a group if it starts with `(`, and an atom otherwise. -/
def expr (p : Parser) : Answer p :=
  let q := p.skipBlanks
  .via p.passes_skipBlanks <|
    match q.cursor.peek? with
    | some '(' => group q
    | some _ => atom q
    | none => .failAt q (q.faultHere .unexpectedEnd)
termination_by 4 * p.left + 2
decreasing_by
  have := left_le p.passes_skipBlanks
  omega

/-- Reads a group. Inside it one group more is open, whatever becomes of it. -/
def group (p : Parser) : Answer p :=
  let q := p.skipBlanks
  .via p.passes_skipBlanks <|
    if h : q.cursor.peek? = some '(' then
      if q.openGroups ≥ maxDepth then .failAt q (q.faultHere .tooDeep)
      else .leave h (children q.cursor.span [] q.next.enter)
    else .failAt q (q.faultHere .missingOpening)
termination_by 4 * p.left + 1
decreasing_by
  have := left_le p.passes_skipBlanks
  have : p.skipBlanks.next.enter.left < p.skipBlanks.left :=
    left_lt (Cursor.passes_next h) (List.cons_ne_nil _ _)
  omega

/-- Reads the rest of the group that begins with `opening`, and its `)`; the children
`read` so far come latest first. -/
def children (opening : Span) (read : List Expr) (p : Parser) : Answer p :=
  let q := p.skipBlanks
  .via p.passes_skipBlanks <|
    match h : q.cursor.peek? with
    | some ')' => .readAt q (.group read.reverse) h
    | some _ =>
        let a := expr q
        a.andThen fun e _ => children opening (e :: read) a.after
    | none => .failAt q ⟨.read .missingClosing, [opening, q.cursor.endSpan]⟩
termination_by 4 * p.left + 3
decreasing_by
  · have := left_le p.passes_skipBlanks
    omega
  · have hle : q.left ≤ p.left := left_le p.passes_skipBlanks
    have hlt : a.after.left < q.left := a.left_lt ‹_›
    have : 4 * a.after.left + 3 < 4 * p.left + 3 := by omega
    exact this

end

/-- Reads an expression that only blanks may follow. -/
def full (p : Parser) : Answer p :=
  let a := expr p
  match h : a.result with
  | .error _ => a
  | .ok e =>
      let q := a.after.skipBlanks
      { result :=
          if q.cursor.atEnd then .ok e
          else .error ⟨.read .trailingText, [q.cursor.remainingSpan]⟩
        after := q
        passes := by
          obtain ⟨taken, htaken, hne⟩ := a.passes
          refine ⟨_, htaken.trans (Cursor.passes_skipBlanks _), fun _ _ hnil => ?_⟩
          exact hne e h (List.append_eq_nil_iff.mp hnil).1 }

end Parser

/-! ### Agreement -/

/-- Whether a call answers as a reader does, and leaves as many groups open as there
were. -/
structure Answer.Agrees {p : Parser} (a : Answer p) (r : Reading) : Prop where
  result_eq : a.result = r.result
  after_eq : a.after = ⟨r.cursor, p.openGroups⟩

lemma Answer.Agrees.cursor_eq {p : Parser} {a : Answer p} {r : Reading} (h : a.Agrees r) :
    a.after.cursor = r.cursor := by
  rw [h.after_eq]

lemma Answer.Agrees.openGroups_eq {p : Parser} {a : Answer p} {r : Reading} (h : a.Agrees r) :
    a.after.openGroups = p.openGroups := by
  rw [h.after_eq]

lemma Answer.Agrees.via {p q : Parser} {a : Answer q} {r : Reading} (ha : a.Agrees r)
    (h : ∃ taken, p.cursor.Passes taken q.cursor) (hq : q.openGroups = p.openGroups) :
    (Answer.via h a).Agrees r where
  result_eq := ha.result_eq
  after_eq := hq ▸ ha.after_eq

/-- The count is the same again outside of the group. -/
lemma Answer.Agrees.leave {p : Parser} {x : Char} {h : p.cursor.peek? = some x}
    {a : Answer p.next.enter} {r : Reading} (ha : a.Agrees r) : (Answer.leave h a).Agrees r :=
  ⟨ha.result_eq, congrArg Parser.leave ha.after_eq⟩

namespace Parser

open Reading (element)

variable {p : Parser} {opening : Cursor} {room n : Nat} {read : List Expr} {bound : List Char}

lemma atom_agrees (p : Parser) : (atom p).Agrees (Reading.atom p.cursor) := ⟨rfl, rfl⟩

/-- Where no child stands, both readers end the group or the text. -/
lemma children_agrees_of_no_child (element : Cursor → Reading)
    (h : ∀ x, p.skipBlanks.cursor.peek? = some x → x = ')') :
    (children opening.span read p).Agrees
      (Reading.children element opening bound read p.cursor) := by
  rw [children]
  refine Answer.Agrees.via ?_ _ rfl
  split
  · rename_i hpeek
    rw [Reading.children_of_closing hpeek]
    exact ⟨rfl, rfl⟩
  · rename_i x hne hpeek
    exact absurd (h x hpeek) hne
  · rename_i hpeek
    rw [Reading.children_of_end hpeek]
    exact ⟨rfl, rfl⟩

/-- Where a child stands, it is read first. -/
lemma children_of_child {opening : Span} {x : Char} (hx : p.skipBlanks.cursor.peek? = some x)
    (hne : x ≠ ')') :
    children opening read p = .via p.passes_skipBlanks ((expr p.skipBlanks).andThen fun e _ =>
      children opening (e :: read) (expr p.skipBlanks).after) := by
  rw [children]
  congr 1
  split
  · rename_i hpeek
    exact absurd (Option.some.inj (hx.symm.trans hpeek)) hne
  · rfl
  · rename_i hpeek
    simp [hx] at hpeek

/-- Where a child stands, the readers agree if they do on the child and behind it. -/
lemma children_agrees_of_child {element : Cursor → Reading} {x y : Char}
    (hx : p.skipBlanks.cursor.peek? = some x) (hne : x ≠ ')')
    (hchild : (expr p.skipBlanks).Agrees (element p.skipBlanks.cursor))
    (hrest : ∀ e, (expr p.skipBlanks).result = .ok e →
      (children opening.span (e :: read) (expr p.skipBlanks).after).Agrees
        (Reading.children element opening bound (e :: read) (expr p.skipBlanks).after.cursor)) :
    (children opening.span read p).Agrees
      (Reading.children element opening (y :: bound) read p.cursor) := by
  rw [children_of_child hx hne]
  refine Answer.Agrees.via ?_ _ rfl
  cases hread : element p.skipBlanks.cursor with
  | mk result c =>
      rw [hread] at hchild
      cases result with
      | error d =>
          rw [Answer.andThen_of_error hchild.result_eq,
            Reading.children_of_element_error hx hne hread]
          exact hchild
      | ok e =>
          have hagrees := hrest e hchild.result_eq
          rw [hchild.cursor_eq] at hagrees
          rw [Answer.andThen_of_ok hchild.result_eq, Reading.children_of_element hx hne hread]
          exact hagrees.via _ hchild.openGroups_eq

/-- The readers of children agree if those of expressions do. -/
lemma children_agrees
    (hel : ∀ {q : Parser}, q.openGroups = n → (expr q).Agrees (element room q.cursor))
    (hp : p.openGroups = n) (hbound : p.left ≤ bound.length) :
    (children opening.span read p).Agrees
      (Reading.children (element room) opening bound read p.cursor) := by
  have hle := left_le p.passes_skipBlanks
  induction bound generalizing read p with
  | nil =>
      refine children_agrees_of_no_child _ fun x hx => ?_
      have hlt : p.skipBlanks.next.left < p.skipBlanks.left :=
        left_lt (Cursor.passes_next hx) (List.cons_ne_nil _ _)
      rw [List.length_nil] at hbound
      omega
  | cons y bound ih =>
      by_cases hchild : ∃ x, p.skipBlanks.cursor.peek? = some x ∧ x ≠ ')'
      · obtain ⟨x, hx, hne⟩ := hchild
        have hq := hel (q := p.skipBlanks) hp
        refine children_agrees_of_child hx hne hq fun e he => ?_
        have hlt := (expr p.skipBlanks).left_lt he
        rw [List.length_cons] at hbound
        exact ih (hq.openGroups_eq.trans hp) (by omega) (left_le (passes_skipBlanks _))
      · push Not at hchild
        exact children_agrees_of_no_child _ hchild

/-- The reader of a group agrees if those of the expressions in it do. -/
lemma group_agrees_of_opening
    (hel : p.openGroups < maxDepth → ∀ {q : Parser}, q.openGroups = p.openGroups + 1 →
      (expr q).Agrees (element (maxDepth - q.openGroups) q.cursor))
    (hpeek : p.skipBlanks.cursor.peek? = some '(') :
    (group p).Agrees (element (maxDepth - p.openGroups) p.cursor) := by
  rw [group]
  refine Answer.Agrees.via ?_ _ rfl
  rw [dif_pos hpeek, openGroups_skipBlanks]
  by_cases hfull : p.openGroups ≥ maxDepth
  · rw [if_pos hfull, Nat.sub_eq_zero_of_le hfull, Reading.element_of_opening_zero hpeek]
    exact ⟨rfl, rfl⟩
  · rw [not_le] at hfull
    -- inside the group there is room for one less
    have hroom : maxDepth - p.openGroups = maxDepth - (p.openGroups + 1) + 1 := by omega
    rw [if_neg (not_le.mpr hfull), hroom, Reading.element_of_opening hpeek]
    refine (children_agrees (n := p.openGroups + 1) (fun {q} hq => ?_) rfl le_rfl).leave
    exact hq ▸ hel hfull hq

/-- The reader of an expression agrees with the one that has as much room as is left. -/
theorem expr_agrees (p : Parser) :
    (expr p).Agrees (element (maxDepth - p.openGroups) p.cursor) := by
  induction hroom : maxDepth - p.openGroups using Nat.strong_induction_on generalizing p with
  | _ room ih =>
      rw [expr]
      refine Answer.Agrees.via ?_ _ rfl
      subst hroom
      split
      · rename_i hpeek
        have hgroup := group_agrees_of_opening (p := p.skipBlanks) (fun hlt q hq => ?_)
          (by rwa [cursor_skipBlanks, cursor_skipBlanks, Cursor.skipBlanks_skipBlanks])
        · rwa [cursor_skipBlanks, Reading.element_skipBlanks] at hgroup
        · rw [openGroups_skipBlanks] at hq hlt
          exact ih _ (by omega) q rfl
      · rename_i x hne hpeek
        rw [Reading.element_of_atom hpeek hne]
        exact atom_agrees _
      · rename_i hpeek
        rw [Reading.element_of_end hpeek]
        exact ⟨rfl, rfl⟩

/-- Outside of all groups, the reader of a group agrees. -/
lemma group_agrees (hp : p.openGroups = 0) : (group p).Agrees (Reading.group p.cursor) := by
  rw [Reading.group, ← cursor_skipBlanks]
  split_ifs with hpeek
  · have hgroup := group_agrees_of_opening (p := p) (fun _ q _ => expr_agrees q) hpeek
    rw [hp, Nat.sub_zero, ← Reading.element_skipBlanks] at hgroup
    exact hgroup
  · rw [group]
    refine Answer.Agrees.via ?_ _ rfl
    rw [dif_neg hpeek]
    exact ⟨rfl, rfl⟩

/-- Outside of all groups, the reader of an expression agrees. -/
lemma expr_agrees_expr (hp : p.openGroups = 0) : (expr p).Agrees (Reading.expr p.cursor) := by
  have hexpr := expr_agrees p
  rwa [hp, Nat.sub_zero] at hexpr

/-- Outside of all groups, the reader of a whole text agrees. -/
lemma full_agrees (hp : p.openGroups = 0) : (full p).Agrees (Reading.full p.cursor) := by
  have hexpr := expr_agrees_expr hp
  rw [full]
  cases hread : Reading.expr p.cursor with
  | mk result c =>
      rw [hread] at hexpr
      dsimp only
      split
      · rename_i d hd
        obtain rfl := hd.symm.trans hexpr.result_eq
        rw [Reading.full_of_expr_error hread]
        exact hexpr
      · rename_i e he
        obtain rfl := he.symm.trans hexpr.result_eq
        obtain rfl : (expr p).after.cursor = c := hexpr.cursor_eq
        rw [Reading.full_of_expr hread]
        exact ⟨rfl, congrArg (Parser.mk _) hexpr.openGroups_eq⟩

end Parser

/-! ### Calls -/

/-- The readers that may be called. -/
inductive Call where
  | expr
  | group
  | atom
  | full

/-- What a call at `p` comes to. -/
def Call.run (p : Parser) : Call → Answer p
  | expr => p.expr
  | group => p.group
  | atom => p.atom
  | full => p.full

/-- The reader that is told how many groups may be opened. -/
def Call.reading (c : Cursor) : Call → Reading
  | expr => .expr c
  | group => .group c
  | atom => .atom c
  | full => .full c

/-- **Each call answers as the reader does that counts nothing**, and leaves no group
open. -/
theorem Call.run_agrees {p : Parser} (call : Call) (hp : p.openGroups = 0) :
    (call.run p).Agrees (call.reading p.cursor) := by
  cases call with
  | expr => exact Parser.expr_agrees_expr hp
  | group => exact Parser.group_agrees hp
  | atom => exact Parser.atom_agrees p
  | full => exact Parser.full_agrees hp

end Innermost
