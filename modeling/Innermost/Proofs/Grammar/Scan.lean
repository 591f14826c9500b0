import Innermost.Proofs.Grammar.Acceptance

/-!
The fault of a text, told by one scan from left to right.

* `Scan.goOn` goes over the characters once, with the parentheses of the groups that are
  open on a stack. It is over when the expression is complete, or where it cannot go on
  (`Ending`), and `Ending.fault` is what this says of the text.
* `Follows`: where a reader of an expression comes to an end, the scan has come to the
  same place, with the same groups open, or to the same fault. The readers of the grammar
  follow the scan (`follows_element`): what a reader takes up between a `(` and the `)` that
  answers it is what the scan goes over between the push and the pop
  (`follows_children`).
* `parse_eq_error_iff` says so of whole texts, and tells the two endings before any
  expression by the text alone.
-/

namespace Innermost

/-! ### Places -/

namespace Cursor

/-- A text ends where its bytes do. -/
lemma stop_eq (c : Cursor) : c.stop = c.source.utf8ByteSize := by
  rw [← byteLength_toList, source, String.toList_ofList, byteLength_append, byteLength_reverse]
  rfl

@[simp] lemma stop_next (c : Cursor) : c.next.stop = c.stop := by
  rw [stop_eq, stop_eq, source_next]

@[simp] lemma stop_skipWhile (p : Char → Bool) (c : Cursor) : (c.skipWhile p).stop = c.stop := by
  rw [stop_eq, stop_eq, source_skipWhile]

@[simp] lemma stop_skipBlanks (c : Cursor) : c.skipBlanks.stop = c.stop := stop_skipWhile _ c

lemma stop_ofText (text : String) : (ofText text).stop = text.utf8ByteSize := by
  rw [stop_eq, source_ofText]

lemma offset_skipWhile (p : Char → Bool) (c : Cursor) :
    (c.skipWhile p).offset = c.offset + byteLength (c.rest.takeWhile p) := by
  rw [offset, skipWhile, byteLength_append, byteLength_reverse, Nat.add_comm]
  rfl

lemma rest_of_peek {c : Cursor} {x : Char} (h : c.peek? = some x) : c.rest = x :: c.next.rest := by
  rcases c with ⟨passed, _ | ⟨y, rest⟩⟩
  · cases h
  · rw [← Option.some.inj h]
    rfl

lemma span_of_peek {c : Cursor} {x : Char} (h : c.peek? = some x) :
    c.span = ⟨c.offset, c.offset + x.utf8Size⟩ := by
  rw [span, rest_of_peek h]

lemma offset_next_of_peek {c : Cursor} {x : Char} (h : c.peek? = some x) :
    c.next.offset = c.offset + x.utf8Size := by
  rw [next, rest_of_peek h, offset, byteLength_cons, Nat.add_comm]
  rfl

lemma rest_of_peek_none {c : Cursor} (h : c.peek? = none) : c.rest = [] :=
  List.head?_eq_none_iff.mp h

/-- Behind a gap stands no blank. -/
lemma not_isBlank_of_peek {c : Cursor} {x : Char} (h : c.skipBlanks.peek? = some x) :
    isBlank x = false := by
  have hx := List.head?_dropWhile_not isBlank c.rest
  rw [← rest_skipWhile, ← skipBlanks, ← peek?, h] at hx
  exact hx

end Cursor

namespace Scan

open Reading (isAtomChar)

/-! ### The scan -/

/-- How a scan comes to an end. -/
inductive Ending where
  /-- The text ends before an expression begins. -/
  | blank
  /-- A `)` stands where the expression has to begin. -/
  | stray (closing : Span)
  /-- A group begins inside as many groups as may be open. -/
  | tooDeep (opening : Span)
  /-- The text ends inside groups, the innermost of which begins with `opening`. -/
  | unclosed (opening : Span)
  /-- The expression ends at byte `place`, and `rest` follows. -/
  | complete (place : Nat) (rest : List Char)
  deriving DecidableEq

/-- What is wrong with a text that ends at byte `stop`, if anything is. -/
def Ending.fault (stop : Nat) : Ending → Option Diagnostic
  | blank => some ⟨.read .unexpectedEnd, [Span.empty stop]⟩
  | stray closing => some ⟨.read .emptyAtom, [closing]⟩
  | tooDeep opening => some ⟨.read .tooDeep, [opening]⟩
  | unclosed opening => some ⟨.read .missingClosing, [opening, Span.empty stop]⟩
  | complete place rest =>
      if rest.dropWhile isBlank = [] then none
      else some ⟨.read .trailingText, [⟨place + byteLength (rest.takeWhile isBlank), stop⟩]⟩

/-- Scans the characters from byte `place` on, inside the groups whose opening parentheses
are on the `stack`, the innermost first, and perhaps inside an atom.

A `(` that begins an expression goes onto the stack, and a `)` takes one off. Whatever else
begins an expression is an atom, which goes on to the next blank or `)`. The scan is over
behind an expression that is in no group. -/
def goOn (stack : List Span) (inAtom : Bool) (place : Nat) : List Char → Ending
  | [] =>
      match stack with
      | [] => if inAtom then .complete place [] else .blank
      | opening :: _ => .unclosed opening
  | c :: cs =>
      let next := place + c.utf8Size
      if inAtom ∧ isAtomChar c then goOn stack true next cs
      else if inAtom ∧ stack = [] then .complete place (c :: cs)
      else if isBlank c then goOn stack false next cs
      else if c = '(' then
        if stack.length < maxDepth then goOn (⟨place, next⟩ :: stack) false next cs
        else .tooDeep ⟨place, next⟩
      else if c = ')' then
        match stack with
        | [] => .stray ⟨place, next⟩
        | [_] => .complete next cs
        | _ :: outer => goOn outer false next cs
      else goOn stack true next cs

/-- The scan of a text. -/
def ofText (text : String) : Ending := goOn [] false 0 text.toList

/-- The scan behind an expression. -/
def behind (stack : List Span) (place : Nat) (cs : List Char) : Ending :=
  match stack with
  | [] => .complete place cs
  | _ :: _ => goOn stack false place cs

section Goes

variable (stack : List Span) (place : Nat) (cs : List Char)

/-- Blanks between expressions are passed over. -/
lemma goOn_blanks :
    goOn stack false (place + byteLength (cs.takeWhile isBlank)) (cs.dropWhile isBlank) =
      goOn stack false place cs := by
  induction cs generalizing place with
  | nil => rfl
  | cons c cs ih =>
      by_cases hc : isBlank c
      · rw [List.takeWhile_cons_of_pos hc, List.dropWhile_cons_of_pos hc, byteLength_cons,
          ← Nat.add_assoc, ih]
        simp [goOn, hc]
      · rw [List.takeWhile_cons_of_neg hc, List.dropWhile_cons_of_neg hc]
        rfl

/-- An atom is over at the first character that cannot be in it. -/
lemma goOn_inAtom :
    goOn stack true place cs =
      behind stack (place + byteLength (cs.takeWhile isAtomChar)) (cs.dropWhile isAtomChar) := by
  induction cs generalizing place with
  | nil => cases stack <;> rfl
  | cons c cs ih =>
      by_cases hc : isAtomChar c
      · rw [List.takeWhile_cons_of_pos hc, List.dropWhile_cons_of_pos hc, byteLength_cons,
          ← Nat.add_assoc, ← ih]
        simp [goOn, hc]
      · rw [List.takeWhile_cons_of_neg hc, List.dropWhile_cons_of_neg hc]
        cases stack with
        | nil => simp [goOn, hc, behind]
        | cons opening outer => simp [goOn, hc, behind]

variable {stack place cs}

lemma goOn_opening (h : stack.length < maxDepth) :
    goOn stack false place ('(' :: cs) =
      goOn (⟨place, place + '('.utf8Size⟩ :: stack) false (place + '('.utf8Size) cs := by
  simp [goOn, h, isBlank]

lemma goOn_opening_of_full (h : stack.length = maxDepth) :
    goOn stack false place ('(' :: cs) = .tooDeep ⟨place, place + '('.utf8Size⟩ := by
  simp [goOn, h, isBlank]

lemma goOn_closing {opening : Span} {outer : List Span} :
    goOn (opening :: outer) false place (')' :: cs) = behind outer (place + ')'.utf8Size) cs := by
  cases outer <;> simp [goOn, isBlank, behind]

lemma goOn_closing_nil :
    goOn [] false place (')' :: cs) = .stray ⟨place, place + ')'.utf8Size⟩ := by
  simp [goOn, isBlank]

/-- A character that begins an atom is in it. -/
lemma goOn_atom {c : Char} (hblank : isBlank c = false) (hopen : c ≠ '(') (hclose : c ≠ ')') :
    goOn stack false place (c :: cs) = goOn stack true place (c :: cs) := by
  have hc : isAtomChar c = true := by simp [isAtomChar, hblank, hclose]
  simp [goOn, hc, hblank, hopen, hclose]

/-- Inside a group an expression has begun. -/
lemma goOn_cons_ne (opening : Span) (outer : List Span) (inAtom : Bool) :
    goOn (opening :: outer) inAtom place cs ≠ .blank ∧
      ∀ closing, goOn (opening :: outer) inAtom place cs ≠ .stray closing := by
  induction cs generalizing opening outer inAtom place with
  | nil => simp [goOn]
  | cons c cs ih =>
      simp only [goOn, reduceCtorEq, and_false, if_false]
      split_ifs
      · exact ih opening outer true
      · exact ih opening outer false
      · exact ih _ (opening :: outer) false
      · simp
      · cases outer with
        | nil => simp
        | cons opening' outer => exact ih opening' outer false
      · exact ih opening outer true

end Goes

/-! ### The endings before an expression -/

section Begins

variable {text : String}

/-- How the scan of a text that is not blank begins. -/
lemma ofText_of_dropWhile {c : Char} {cs : List Char}
    (h : text.toList.dropWhile isBlank = c :: cs) :
    ofText text = goOn [] false (byteLength (text.toList.takeWhile isBlank)) (c :: cs) := by
  rw [ofText, ← goOn_blanks, Nat.zero_add, h]

/-- A text that begins with an expression does not end before one. -/
lemma ofText_ne_of_ne {c : Char} {cs : List Char}
    (h : text.toList.dropWhile isBlank = c :: cs) (hc : c ≠ ')') :
    ofText text ≠ .blank ∧ ∀ closing, ofText text ≠ .stray closing := by
  have hblank : isBlank c = false := by
    have hhead := List.head?_dropWhile_not isBlank text.toList
    rw [h] at hhead
    exact hhead
  rw [ofText_of_dropWhile h]
  by_cases hopen : c = '('
  · rw [hopen, goOn_opening (by decide)]
    exact goOn_cons_ne _ [] false
  · rw [goOn_atom hblank hopen hc, goOn_inAtom]
    simp [behind]

/-- The scan ends at a blank text, and at no other, before it has seen anything. -/
lemma ofText_eq_blank_iff : ofText text = .blank ↔ Blanks text.toList := by
  cases h : text.toList.dropWhile isBlank with
  | nil =>
      have hblank : ofText text = .blank := by
        rw [ofText, ← goOn_blanks, h]
        rfl
      exact iff_of_true hblank (List.dropWhile_eq_nil_iff.mp h)
  | cons c cs =>
      have hblanks : ¬ Blanks text.toList := fun hall => by
        rw [List.dropWhile_eq_nil_iff.mpr hall] at h
        cases h
      refine iff_of_false ?_ hblanks
      by_cases hc : c = ')'
      · rw [ofText_of_dropWhile h, hc, goOn_closing_nil]
        simp
      · exact (ofText_ne_of_ne h hc).1

/-- The scan ends at the first character that is not blank exactly if that is a `)`. -/
lemma ofText_eq_stray_iff {closing : Span} :
    ofText text = .stray closing ↔
      ∃ gap rest, Blanks gap ∧ text.toList = gap ++ ')' :: rest ∧
        closing = ⟨byteLength gap, byteLength gap + 1⟩ := by
  constructor
  · intro hstray
    cases h : text.toList.dropWhile isBlank with
    | nil =>
        rw [ofText_eq_blank_iff.mpr (List.dropWhile_eq_nil_iff.mp h)] at hstray
        cases hstray
    | cons c cs =>
        obtain rfl : c = ')' := by
          by_contra hc
          exact (ofText_ne_of_ne h hc).2 _ hstray
        rw [ofText_of_dropWhile h, goOn_closing_nil] at hstray
        refine ⟨text.toList.takeWhile isBlank, cs, blanks_takeWhile _, ?_,
          (Ending.stray.inj hstray).symm⟩
        rw [← h, List.takeWhile_append_dropWhile]
  · rintro ⟨gap, rest, hgap, htext, rfl⟩
    have hdrop : text.toList.dropWhile isBlank = ')' :: rest := by
      rw [htext, dropWhile_blanks_append hgap]
      rfl
    have htake : text.toList.takeWhile isBlank = gap := by
      rw [htext, List.takeWhile_append_of_pos hgap]
      simp [isBlank]
    rw [ofText_of_dropWhile hdrop, htake, goOn_closing_nil]
    rfl

end Begins

end Scan

/-! ### The readers follow the scan -/

namespace Reading

open Scan (goOn behind)

/-- A reader that starts where the scan ends with `ending`, inside the groups of `stack`,
agrees with it: where it has found an expression, the scan goes on from its place, and
where it fails, the scan has come to that fault. -/
inductive Follows (stack : List Span) (stop : Nat) (ending : Scan.Ending) : Reading → Prop where
  | found {e : Expr} {c : Cursor} (hstop : c.stop = stop)
      (h : ending = behind stack c.offset c.rest) : Follows stack stop ending ⟨.ok e, c⟩
  | failed {d : Diagnostic} {c : Cursor} (h : ending.fault stop = some d) :
      Follows stack stop ending ⟨.error d, c⟩

/-- The scan from a cursor on, inside the groups of a stack. -/
def scanFrom (stack : List Span) (c : Cursor) : Scan.Ending := goOn stack false c.offset c.rest

@[simp] lemma scanFrom_skipBlanks (stack : List Span) (c : Cursor) :
    scanFrom stack c.skipBlanks = scanFrom stack c := by
  rw [scanFrom, Cursor.skipBlanks, Cursor.offset_skipWhile, Cursor.rest_skipWhile,
    Scan.goOn_blanks]
  rfl

section Readers

variable {stack outer : List Span} {c opening : Cursor} {x : Char}

lemma scanFrom_of_peek (h : c.peek? = some x) :
    scanFrom stack c = goOn stack false c.offset (x :: c.next.rest) := by
  rw [scanFrom, Cursor.rest_of_peek h]

/-! #### Groups -/

lemma scanFrom_closing (h : c.peek? = some ')') (s : Span) :
    scanFrom (s :: outer) c = behind outer c.next.offset c.next.rest := by
  rw [scanFrom_of_peek h, Scan.goOn_closing, Cursor.offset_next_of_peek h]

lemma scanFrom_opening (h : c.peek? = some '(') (hroom : stack.length < maxDepth) :
    scanFrom stack c = scanFrom (c.span :: stack) c.next := by
  rw [scanFrom_of_peek h, Scan.goOn_opening hroom, scanFrom, Cursor.offset_next_of_peek h,
    Cursor.span_of_peek h]

lemma scanFrom_opening_of_full (h : c.peek? = some '(') (hroom : stack.length = maxDepth) :
    scanFrom stack c = .tooDeep c.span := by
  rw [scanFrom_of_peek h, Scan.goOn_opening_of_full hroom, Cursor.span_of_peek h]

/-- The end of the text inside a group is a fault. -/
lemma children_of_end {element : Cursor → Reading} {bound : List Char} {read : List Expr}
    (h : c.skipBlanks.peek? = none) :
    children element opening bound read c =
      ⟨.error ⟨.read .missingClosing, [opening.span, c.skipBlanks.endSpan]⟩, c.skipBlanks⟩ := by
  unfold children
  simp only [h]

/-- The fault of a child is that of the group. -/
lemma children_of_element_error {element : Cursor → Reading} {y : Char} {bound : List Char}
    {read : List Expr} {c' : Cursor} {d : Diagnostic} (hx : c.skipBlanks.peek? = some x)
    (hne : x ≠ ')') (h : element c.skipBlanks = ⟨.error d, c'⟩) :
    children element opening (y :: bound) read c = ⟨.error d, c'⟩ := by
  conv_lhs => unfold children
  simp only [hx, h]

/-- What a reader has found it has passed. -/
lemma rest_length_lt_of_element {room : Nat} {c' : Cursor} {e : Expr}
    (h : element room c = ⟨.ok e, c'⟩) : c'.rest.length < c.rest.length := by
  obtain ⟨gap, w, -, hw, hrest⟩ := (spelled_of_element h).passed
  obtain ⟨y, ys, rfl, -⟩ := hw.head
  rw [hrest]
  simp only [List.length_append, List.length_cons]
  omega

/-- Where no child stands, the scan ends the group or the text with its reader. -/
lemma follows_children_of_no_child {element : Cursor → Reading} {bound : List Char}
    {read : List Expr} (h : ∀ x, c.skipBlanks.peek? = some x → x = ')') :
    Follows outer c.stop (scanFrom (opening.span :: outer) c)
      (children element opening bound read c) := by
  rw [← scanFrom_skipBlanks]
  cases hpeek : c.skipBlanks.peek? with
  | none =>
      rw [children_of_end hpeek]
      refine .failed ?_
      rw [scanFrom, Cursor.rest_of_peek_none hpeek, Cursor.endSpan, Cursor.stop_skipBlanks]
      rfl
  | some x =>
      obtain rfl := h x hpeek
      rw [children_of_closing hpeek]
      exact .found (by simp) (scanFrom_closing hpeek _)

/-- The reader of a group follows the scan from behind the `(` on, if the reader of its
children does. -/
lemma follows_children {room : Nat}
    (hel : ∀ {c : Cursor} {x : Char}, c.skipBlanks.peek? = some x → x ≠ ')' →
      Follows (opening.span :: outer) c.stop (scanFrom (opening.span :: outer) c) (element room c))
    {bound : List Char} {read : List Expr} (hbound : c.rest.length ≤ bound.length) :
    Follows outer c.stop (scanFrom (opening.span :: outer) c)
      (children (element room) opening bound read c) := by
  induction bound generalizing read c with
  | nil =>
      refine follows_children_of_no_child fun x hx => ?_
      have hrest := rest_eq_of_peek hx
      rw [List.length_nil, Nat.le_zero, List.length_eq_zero_iff] at hbound
      rw [hbound] at hrest
      simp at hrest
  | cons y bound ih =>
      by_cases hchild : ∃ x, c.skipBlanks.peek? = some x ∧ x ≠ ')'
      · obtain ⟨x, hx, hne⟩ := hchild
        have hfollows := hel (c := c.skipBlanks) (by simpa using hx) hne
        rw [scanFrom_skipBlanks, Cursor.stop_skipBlanks] at hfollows
        cases hread : element room c.skipBlanks with
        | mk result c' =>
            rw [hread] at hfollows
            cases hfollows with
            | found hstop hscan =>
                have hlt := rest_length_lt_of_element hread
                have hle : c.skipBlanks.rest.length ≤ c.rest.length :=
                  (List.dropWhile_suffix isBlank).length_le
                rw [List.length_cons] at hbound
                rw [children_of_element hx hne hread, hscan, ← hstop]
                exact ih (by omega)
            | failed hfault =>
                rw [children_of_element_error hx hne hread]
                exact .failed hfault
      · push Not at hchild
        exact follows_children_of_no_child hchild

/-! #### Expressions -/

lemma element_of_end {room : Nat} (h : c.skipBlanks.peek? = none) :
    element room c = failAt c.skipBlanks .unexpectedEnd := by
  unfold element
  simp only [h]

lemma element_of_opening_zero (h : c.skipBlanks.peek? = some '(') :
    element 0 c = failAt c.skipBlanks .tooDeep := by
  unfold element
  simp only [h]

lemma element_of_atom {room : Nat} (hx : c.skipBlanks.peek? = some x) (hne : x ≠ '(') :
    element room c = atom c.skipBlanks := by
  unfold element
  simp only [hx]

/-- Where neither a blank nor a parenthesis stands, an atom is found. -/
lemma follows_atom (hx : c.skipBlanks.peek? = some x) (hopen : x ≠ '(') (hclose : x ≠ ')') :
    Follows stack c.stop (scanFrom stack c) (atom c.skipBlanks) := by
  have hblank := Cursor.not_isBlank_of_peek hx
  have hrest := Cursor.rest_of_peek hx
  have hatom : isAtomChar x = true := by simp [isAtomChar, hblank, hclose]
  have hread : atom c.skipBlanks =
      ⟨.ok (.atom (String.ofList (c.skipBlanks.rest.takeWhile isAtomChar))),
        c.skipBlanks.skipWhile isAtomChar⟩ := by
    simp [atom, Cursor.atEnd, hrest, hatom]
  rw [hread]
  refine .found (by simp) ?_
  rw [← scanFrom_skipBlanks, scanFrom_of_peek hx, Scan.goOn_atom hblank hopen hclose, ← hrest,
    Scan.goOn_inAtom, Cursor.offset_skipWhile, Cursor.rest_skipWhile]

/-- A `)` begins nothing, and in no group it ends nothing either. -/
lemma follows_atom_of_closing (hx : c.skipBlanks.peek? = some ')') :
    Follows [] c.stop (scanFrom [] c) (atom c.skipBlanks) := by
  have hread : atom c.skipBlanks = failAt c.skipBlanks .emptyAtom := by
    simp [atom, Cursor.atEnd, Cursor.rest_of_peek hx, isAtomChar]
  rw [hread]
  refine .failed ?_
  rw [← scanFrom_skipBlanks, scanFrom_of_peek hx, Scan.goOn_closing_nil, Cursor.span_of_peek hx]
  rfl

/-- The reader of an expression that is no group follows the scan. -/
lemma follows_element_of_not_opening {room : Nat} (hpeek : c.skipBlanks.peek? ≠ some '(')
    (hnext : stack ≠ [] → ∃ x, c.skipBlanks.peek? = some x ∧ x ≠ ')') :
    Follows stack c.stop (scanFrom stack c) (element room c) := by
  cases hx : c.skipBlanks.peek? with
  | none =>
      obtain rfl : stack = [] := by
        by_contra hstack
        obtain ⟨x, hx', -⟩ := hnext hstack
        exact absurd (hx.symm.trans hx') (by simp)
      rw [element_of_end hx, ← scanFrom_skipBlanks]
      refine .failed ?_
      rw [scanFrom, Cursor.span, Cursor.rest_of_peek_none hx, Cursor.endSpan,
        Cursor.stop_skipBlanks]
      rfl
  | some x =>
      have hopen : x ≠ '(' := fun h => hpeek (h ▸ hx)
      rw [element_of_atom hx hopen]
      by_cases hclose : x = ')'
      · obtain rfl : stack = [] := by
          by_contra hstack
          obtain ⟨y, hy, hne⟩ := hnext hstack
          exact hne (Option.some.inj (hy.symm.trans hx) ▸ hclose)
        exact follows_atom_of_closing (hclose ▸ hx)
      · exact follows_atom hx hopen hclose

/-- **The reader of an expression follows the scan**, unless it stands at the end of a
group. -/
lemma follows_element {room : Nat} (hroom : stack.length + room = maxDepth)
    (hnext : stack ≠ [] → ∃ x, c.skipBlanks.peek? = some x ∧ x ≠ ')') :
    Follows stack c.stop (scanFrom stack c) (element room c) := by
  induction room generalizing stack c with
  | zero =>
      by_cases hpeek : c.skipBlanks.peek? = some '('
      · rw [element_of_opening_zero hpeek, ← scanFrom_skipBlanks,
          scanFrom_opening_of_full hpeek hroom]
        exact .failed rfl
      · exact follows_element_of_not_opening hpeek hnext
  | succ room ih =>
      by_cases hpeek : c.skipBlanks.peek? = some '('
      · -- the groups that are open inside this one leave room for one less
        have hchild {c' : Cursor} {x : Char} (hx : c'.skipBlanks.peek? = some x) (hne : x ≠ ')') :
            Follows (c.skipBlanks.span :: stack) c'.stop (scanFrom (c.skipBlanks.span :: stack) c')
              (element room c') :=
          ih (by rw [List.length_cons]; omega) fun _ => ⟨x, hx, hne⟩
        rw [element_of_opening hpeek, ← scanFrom_skipBlanks,
          scanFrom_opening hpeek (by omega), ← Cursor.stop_skipBlanks, ← Cursor.stop_next]
        exact follows_children hchild le_rfl
      · exact follows_element_of_not_opening hpeek hnext

end Readers

/-! #### Whole texts -/

/-- The fault that the scan of a text finds is the one for which the text is not read. -/
lemma fault_ofText (text : String) :
    (Scan.ofText text).fault text.utf8ByteSize =
      match Expr.parse text with
      | .ok _ => none
      | .error d => some d := by
  have hfollows : Follows [] text.utf8ByteSize (Scan.ofText text) (expr (Cursor.ofText text)) := by
    rw [← Cursor.stop_ofText]
    exact follows_element (Nat.zero_add _) fun h => absurd rfl h
  rw [Expr.parse, full]
  generalize expr (Cursor.ofText text) = reading at hfollows
  cases hfollows with
  | failed hfault => exact hfault
  | @found e c hstop hscan =>
      rw [hscan, behind, Scan.Ending.fault, ← Cursor.rest_skipWhile, ← Cursor.skipBlanks,
        ← Cursor.offset_skipWhile, ← Cursor.skipBlanks, ← hstop, ← Cursor.stop_skipBlanks]
      by_cases hend : c.skipBlanks.rest = []
      · simp [Cursor.atEnd, hend]
      · simp [Cursor.atEnd, hend, Cursor.remainingSpan]

end Reading

namespace Scan

variable {text : String} {spans : List Span}

/-- Every fault is one of reading. -/
lemma exists_read_of_fault {stop : Nat} {ending : Ending} {d : Diagnostic}
    (h : ending.fault stop = some d) : ∃ fault, d.cause = .read fault := by
  cases ending with
  | complete place rest =>
      rw [Ending.fault] at h
      split_ifs at h
      cases h
      exact ⟨_, rfl⟩
  | _ =>
      cases h
      exact ⟨_, rfl⟩

lemma fault_eq_unexpectedEnd_iff {stop : Nat} {ending : Ending} :
    ending.fault stop = some ⟨.read .unexpectedEnd, spans⟩ ↔
      ending = .blank ∧ spans = [Span.empty stop] := by
  cases ending with
  | complete place rest =>
      rw [Ending.fault]
      split_ifs <;> simp
  | _ => simp [Ending.fault, eq_comm]

lemma fault_eq_emptyAtom_iff {stop : Nat} {ending : Ending} :
    ending.fault stop = some ⟨.read .emptyAtom, spans⟩ ↔
      ∃ closing, ending = .stray closing ∧ spans = [closing] := by
  cases ending with
  | complete place rest =>
      rw [Ending.fault]
      split_ifs <;> simp
  | _ => simp [Ending.fault, eq_comm]

lemma fault_ne_missingOpening (stop : Nat) (ending : Ending) :
    ending.fault stop ≠ some ⟨.read .missingOpening, spans⟩ := by
  cases ending with
  | complete place rest =>
      rw [Ending.fault]
      split_ifs <;> simp
  | _ => simp [Ending.fault]

end Scan

namespace Expr

variable {text : String} {d : Diagnostic}

lemma parse_eq_error_iff_fault :
    parse text = .error d ↔ (Scan.ofText text).fault text.utf8ByteSize = some d := by
  rw [Reading.fault_ofText]
  cases parse text <;> simp

lemma exists_read_of_parse (h : parse text = .error d) : ∃ fault, d.cause = .read fault :=
  Scan.exists_read_of_fault (parse_eq_error_iff_fault.mp h)

lemma exists_parse_eq_ok_iff_fault :
    (∃ e, parse text = .ok e) ↔ (Scan.ofText text).fault text.utf8ByteSize = none := by
  rw [Reading.fault_ofText]
  cases parse text <;> simp

/-- **A text that is not read has the fault that one scan from left to right finds**, at the
same place, and a text in which the scan finds none is read. In particular,

* the text is taken to end too early before anything has begun exactly if it is blank;
* an atom is missing exactly where a `)` is the first character that is not blank, and so
  never inside a group;
* it is never held against a text that no group begins. -/
theorem parse_eq_error_iff (text : String) :
    (∀ d, parse text = .error d ↔ (Scan.ofText text).fault text.utf8ByteSize = some d) ∧
      ((∃ e, parse text = .ok e) ↔ (Scan.ofText text).fault text.utf8ByteSize = none) ∧
      (∀ spans, parse text = .error ⟨.read .unexpectedEnd, spans⟩ ↔
        Blanks text.toList ∧ spans = [Span.empty text.utf8ByteSize]) ∧
      (∀ spans, parse text = .error ⟨.read .emptyAtom, spans⟩ ↔
        ∃ gap rest, Blanks gap ∧ text.toList = gap ++ ')' :: rest ∧
          spans = [⟨byteLength gap, byteLength gap + 1⟩]) ∧
      ∀ spans, parse text ≠ .error ⟨.read .missingOpening, spans⟩ := by
  refine ⟨fun _ => parse_eq_error_iff_fault, exists_parse_eq_ok_iff_fault, fun spans => ?_,
    fun spans => ?_, fun spans h => ?_⟩
  · rw [parse_eq_error_iff_fault, Scan.fault_eq_unexpectedEnd_iff, Scan.ofText_eq_blank_iff]
  · rw [parse_eq_error_iff_fault, Scan.fault_eq_emptyAtom_iff]
    constructor
    · rintro ⟨closing, hstray, rfl⟩
      obtain ⟨gap, rest, hgap, htext, rfl⟩ := Scan.ofText_eq_stray_iff.mp hstray
      exact ⟨gap, rest, hgap, htext, rfl⟩
    · rintro ⟨gap, rest, hgap, htext, rfl⟩
      exact ⟨_, Scan.ofText_eq_stray_iff.mpr ⟨gap, rest, hgap, htext, rfl⟩, rfl⟩
  · exact Scan.fault_ne_missingOpening _ _ (parse_eq_error_iff_fault.mp h)

/-- The innermost group that is open is missed, not the outer one, and parentheses inside
atoms are not counted. -/
example : Scan.ofText "(a (b c(" = .unclosed ⟨3, 4⟩ := by decide

end Expr

end Innermost
