import Innermost.Proofs.Grammar.Counter

/-!
A parser that is called again and again knows nothing but its place.

* `Cursor.behind`: the same place, with more characters in front. A reader does there what
  it does without them, and shows faults at regions that lie further behind
  (`Call.reading_behind`).
* `Parser.afterCalls`: a parser after some calls. No group is open there, whatever has
  become of the calls, and the place lies between two characters (`Parser.Ready`).
* `call_starts_afresh`: so the next call comes to what it comes to on a parser that has
  never seen more than the rest of the text.
-/

namespace Innermost

/-! ### More characters in front -/

/-- The region that lies `n` bytes further behind. -/
def Span.shift (n : Nat) (s : Span) : Span := ⟨n + s.start, n + s.stop⟩

/-- The same cause, shown `n` bytes further behind. -/
def Diagnostic.shift (n : Nat) (d : Diagnostic) : Diagnostic :=
  { d with spans := d.spans.map (·.shift n) }

/-- The same place, behind more characters, of which the nearest come first. -/
def Cursor.behind (before : List Char) (c : Cursor) : Cursor := ⟨c.passed ++ before, c.rest⟩

/-- What is read behind more characters. -/
def Reading.behind (before : List Char) (r : Reading) : Reading :=
  ⟨r.result.mapError (Diagnostic.shift (byteLength before)), r.cursor.behind before⟩

namespace Cursor

variable (before : List Char) (c : Cursor)

/-- Every place lies behind the characters before it. -/
lemma ofText_remaining_behind : (ofText c.remaining).behind c.passed = c := by
  rw [ofText, remaining, String.toList_ofList]
  rfl

lemma peek?_behind : (c.behind before).peek? = c.peek? := rfl

lemma atEnd_behind : (c.behind before).atEnd = c.atEnd := rfl

lemma offset_behind : (c.behind before).offset = byteLength before + c.offset := by
  rw [offset, behind, byteLength_append, Nat.add_comm]
  rfl

lemma stop_behind : (c.behind before).stop = byteLength before + c.stop := by
  rw [stop, offset_behind, Nat.add_assoc]
  rfl

lemma endSpan_behind : (c.behind before).endSpan = c.endSpan.shift (byteLength before) := by
  rw [endSpan, stop_behind]
  rfl

lemma remainingSpan_behind :
    (c.behind before).remainingSpan = c.remainingSpan.shift (byteLength before) := by
  rw [remainingSpan, offset_behind, stop_behind]
  rfl

lemma span_behind : (c.behind before).span = c.span.shift (byteLength before) := by
  cases hpeek : c.peek? with
  | none =>
      have hrest := rest_of_peek_none hpeek
      have hbehind : (c.behind before).rest = [] := hrest
      rw [span, span, hrest, hbehind]
      exact endSpan_behind before c
  | some x =>
      rw [span_of_peek hpeek, span_of_peek ((peek?_behind before c).trans hpeek), offset_behind,
        Span.shift, Nat.add_assoc]

lemma next_behind : (c.behind before).next = c.next.behind before := by
  rcases c with ⟨passed, _ | ⟨x, rest⟩⟩ <;> rfl

lemma skipWhile_behind (p : Char → Bool) :
    (c.behind before).skipWhile p = (c.skipWhile p).behind before := by
  rw [skipWhile, skipWhile, behind, behind, List.append_assoc]

lemma skipBlanks_behind : (c.behind before).skipBlanks = c.skipBlanks.behind before :=
  skipWhile_behind before c isBlank

lemma peek?_skipBlanks_behind : (c.behind before).skipBlanks.peek? = c.skipBlanks.peek? := by
  rw [skipBlanks_behind, peek?_behind]

end Cursor

namespace Reading

variable (before : List Char) (c : Cursor)

lemma failAt_behind (fault : ReadFault) :
    failAt (c.behind before) fault = (failAt c fault).behind before := by
  rw [failAt, Cursor.span_behind]
  rfl

lemma atom_behind : atom (c.behind before) = (atom c).behind before := by
  rw [atom, atom, Cursor.skipBlanks_behind, Cursor.atEnd_behind]
  dsimp only
  by_cases hend : c.skipBlanks.atEnd = true
  · rw [if_pos hend, if_pos hend]
    exact failAt_behind before _ _
  rw [if_neg hend, if_neg hend]
  by_cases hword : (c.skipBlanks.rest.takeWhile isAtomChar).isEmpty = true
  · rw [if_pos hword]
    exact (if_pos hword).trans (failAt_behind before _ _)
  · rw [if_neg hword]
    refine (if_neg hword).trans ?_
    rw [Cursor.skipWhile_behind]
    rfl

/-- The reader of children does the same behind more characters if that of expressions
does. -/
lemma children_behind {element : Cursor → Reading}
    (hel : ∀ c, element (c.behind before) = (element c).behind before)
    (opening : Cursor) (bound : List Char) (read : List Expr) :
    children element (opening.behind before) bound read (c.behind before) =
      (children element opening bound read c).behind before := by
  fun_induction children element opening bound read c with
  | case1 bound read c₀ c hpeek =>
      have hbehind : (c₀.behind before).skipBlanks.peek? = some ')' := by
        rwa [Cursor.peek?_skipBlanks_behind]
      rw [children_of_closing hbehind, Cursor.skipBlanks_behind, Cursor.next_behind]
      rfl
  | case2 read c₀ c x y bound hne hpeek e c' hread ih =>
      have hbehind : (c₀.behind before).skipBlanks.peek? = some x := by
        rwa [Cursor.peek?_skipBlanks_behind]
      have hread' : element (c₀.behind before).skipBlanks = ⟨.ok e, c'.behind before⟩ := by
        rw [Cursor.skipBlanks_behind, hel, hread]
        rfl
      rw [children_of_element hbehind hne hread', ih]
  | case3 read c₀ c x y bound hne hpeek d c' hread =>
      have hbehind : (c₀.behind before).skipBlanks.peek? = some x := by
        rwa [Cursor.peek?_skipBlanks_behind]
      have hread' : element (c₀.behind before).skipBlanks =
          ⟨.error (d.shift (byteLength before)), c'.behind before⟩ := by
        rw [Cursor.skipBlanks_behind, hel, hread]
        rfl
      rw [children_of_element_error hbehind hne hread']
      rfl
  | case4 bound read c₀ c hclosing hchild =>
      unfold children
      rw [Cursor.skipBlanks_behind]
      dsimp only
      rw [Cursor.span_behind, Cursor.endSpan_behind]
      split
      · exact absurd ‹_› hclosing
      · exact (hchild _ _ _ ‹_› rfl).elim
      · rfl

lemma element_behind_of_not_opening (room : Nat) (h : c.skipBlanks.peek? ≠ some '(') :
    element room (c.behind before) = (element room c).behind before := by
  have hbehind := Cursor.peek?_skipBlanks_behind before c
  cases hpeek : c.skipBlanks.peek? with
  | none =>
      rw [element_of_end hpeek, element_of_end (hbehind.trans hpeek), Cursor.skipBlanks_behind,
        failAt_behind]
  | some x =>
      have hne : x ≠ '(' := fun hx => h (hx ▸ hpeek)
      rw [element_of_atom hpeek hne, element_of_atom (hbehind.trans hpeek) hne,
        Cursor.skipBlanks_behind, atom_behind]

lemma element_behind (room : Nat) :
    element room (c.behind before) = (element room c).behind before := by
  induction room generalizing c with
  | zero =>
      by_cases hpeek : c.skipBlanks.peek? = some '('
      · have hbehind := (Cursor.peek?_skipBlanks_behind before c).trans hpeek
        rw [element_of_opening_zero hpeek, element_of_opening_zero hbehind,
          Cursor.skipBlanks_behind, failAt_behind]
      · exact element_behind_of_not_opening before c 0 hpeek
  | succ room ih =>
      by_cases hpeek : c.skipBlanks.peek? = some '('
      · have hbehind := (Cursor.peek?_skipBlanks_behind before c).trans hpeek
        rw [element_of_opening hpeek, element_of_opening hbehind, Cursor.skipBlanks_behind,
          Cursor.next_behind, children_behind before _ ih]
        rfl
      · exact element_behind_of_not_opening before c (room + 1) hpeek

lemma expr_behind : expr (c.behind before) = (expr c).behind before :=
  element_behind before c maxDepth

lemma group_behind : group (c.behind before) = (group c).behind before := by
  rw [group, group, Cursor.skipBlanks_behind, Cursor.peek?_behind]
  split_ifs
  · exact expr_behind before _
  · exact failAt_behind before _ _

lemma full_behind : full (c.behind before) = (full c).behind before := by
  cases hread : expr c with
  | mk result c' =>
      have hbehind := expr_behind before c
      rw [hread] at hbehind
      cases result with
      | error d =>
          rw [full_of_expr_error hread, full_of_expr_error hbehind]
          rfl
      | ok e =>
          rw [full_of_expr hread, full_of_expr hbehind, Cursor.skipBlanks_behind,
            Cursor.atEnd_behind, Cursor.remainingSpan_behind, behind]
          split_ifs <;> rfl

end Reading

/-- **A call does the same behind more characters**, and shows faults further behind. -/
theorem Call.reading_behind (call : Call) (before : List Char) (c : Cursor) :
    call.reading (c.behind before) = (call.reading c).behind before := by
  cases call with
  | expr => exact Reading.expr_behind before c
  | group => exact Reading.group_behind before c
  | atom => exact Reading.atom_behind before c
  | full => exact Reading.full_behind before c

/-! ### Calls one after another -/

/-- A parser after some calls, each of which has read an expression or failed. -/
def Parser.afterCalls (p : Parser) (calls : List Call) : Parser :=
  calls.foldl (fun p call => (call.run p).after) p

/-- Where the readers that count nothing come to by some calls. -/
def Cursor.afterCalls (c : Cursor) (calls : List Call) : Cursor :=
  calls.foldl (fun c call => (call.reading c).cursor) c

/-- What is known of a parser over `text` when it is called. -/
structure Parser.Ready (text : String) (p : Parser) : Prop where
  /-- No group is open. -/
  openGroups_eq : p.openGroups = 0
  /-- The place lies between two characters, and what follows them is left. -/
  boundary : ∃ before, text = before ++ p.cursor.remaining ∧
    p.cursor.offset = before.utf8ByteSize

/-- A call goes on over whole characters, and over one at least if it reads an
expression. -/
def Answer.GoesOn {p : Parser} (a : Answer p) : Prop :=
  ∃ taken, p.cursor.remaining = taken ++ a.after.cursor.remaining ∧
    a.after.cursor.offset = p.cursor.offset + taken.utf8ByteSize ∧
    ∀ e, a.result = .ok e → taken ≠ ""

/-- A call at `p` comes to what a call on a new parser comes to that has the rest of the
text only, but for the bytes in front of it. -/
structure Answer.StartsAfresh {p : Parser} (a : Answer p)
    (fresh : Answer (.ofText p.cursor.remaining)) : Prop where
  result_eq : a.result = fresh.result.mapError (Diagnostic.shift p.cursor.offset)
  offset_eq : a.after.cursor.offset = p.cursor.offset + fresh.after.cursor.offset
  remaining_eq : a.after.cursor.remaining = fresh.after.cursor.remaining

section Calls

variable {text : String} {p : Parser}

lemma Parser.ready_ofText (text : String) : (Parser.ofText text).Ready text where
  openGroups_eq := rfl
  boundary := ⟨"", by simp [ofText, Cursor.remaining, Cursor.ofText], rfl⟩

lemma Answer.goesOn (a : Answer p) : a.GoesOn := by
  obtain ⟨taken, h, hne⟩ := a.passes
  refine ⟨String.ofList taken, ?_, ?_, fun e he hnil => hne e he ?_⟩
  · rw [Cursor.remaining, h.rest_eq, String.ofList_append]
    rfl
  · rw [h.offset_eq, ← byteLength_toList, String.toList_ofList]
  · simpa using congrArg String.toList hnil

/-- A call leaves the parser ready for the next one, whether it fails or not. -/
lemma Parser.Ready.after (hp : p.Ready text) (call : Call) : (call.run p).after.Ready text where
  openGroups_eq := (call.run_agrees hp.openGroups_eq).openGroups_eq.trans hp.openGroups_eq
  boundary := by
    obtain ⟨before, htext, hoffset⟩ := hp.boundary
    obtain ⟨taken, hrest, hplace, -⟩ := (call.run p).goesOn
    exact ⟨before ++ taken, by rw [htext, hrest, String.append_assoc],
      by rw [hplace, hoffset, String.utf8ByteSize_append]⟩

/-- However many calls there have been, the parser is ready. -/
theorem Parser.Ready.afterCalls (hp : p.Ready text) (calls : List Call) :
    (p.afterCalls calls).Ready text := by
  induction calls generalizing p with
  | nil => exact hp
  | cons call calls ih => exact ih (hp.after call)

lemma Parser.Ready.cursor_afterCalls (hp : p.Ready text) (calls : List Call) :
    (p.afterCalls calls).cursor = p.cursor.afterCalls calls := by
  induction calls generalizing p with
  | nil => rfl
  | cons call calls ih =>
      have hcall := (call.run_agrees hp.openGroups_eq).cursor_eq
      exact (ih (hp.after call)).trans (congrArg (Cursor.afterCalls · calls) hcall)

/-- What lies in front of a parser makes no difference but in places. -/
lemma Parser.Ready.startsAfresh (hp : p.Ready text) (call : Call) :
    (call.run p).StartsAfresh (call.run (.ofText p.cursor.remaining)) := by
  have hrun := call.run_agrees hp.openGroups_eq
  have hfresh := call.run_agrees (p := .ofText p.cursor.remaining) rfl
  have hreading : call.reading p.cursor =
      (call.reading (.ofText p.cursor.remaining)).behind p.cursor.passed := by
    rw [← call.reading_behind, Cursor.ofText_remaining_behind]
  constructor
  · rw [hrun.result_eq, hfresh.result_eq, hreading]
    rfl
  · rw [hrun.cursor_eq, hfresh.cursor_eq, hreading]
    exact Cursor.offset_behind _ _
  · rw [hrun.cursor_eq, hfresh.cursor_eq, hreading]
    rfl

end Calls

/-- **A parser carries nothing from call to call but its place.** Whatever calls it has
had, no group is open, and the next call comes to what it comes to on a new parser over
the rest of the text, shifted to the place. The readers that count nothing do the same. -/
theorem call_starts_afresh (text : String) (calls : List Call) (call : Call) :
    let p := (Parser.ofText text).afterCalls calls
    p.Ready text ∧
      (call.run p).StartsAfresh (call.run (.ofText p.cursor.remaining)) ∧
      (call.run p).GoesOn ∧
      p.cursor = (Cursor.ofText text).afterCalls calls ∧
      (call.run p).Agrees (call.reading p.cursor) := by
  intro p
  have hp : p.Ready text := (Parser.ready_ofText text).afterCalls calls
  exact ⟨hp, hp.startsAfresh call, (call.run p).goesOn,
    (Parser.ready_ofText text).cursor_afterCalls calls, call.run_agrees hp.openGroups_eq⟩

end Innermost
