import Innermost.Proofs.Grammar.Counter
import Innermost.Proofs.Text.Regions

/-!
A cursor stands between two characters of its text, whatever calls it has had.

* `ByteCursor` holds its place as a number of bytes. It cuts its text there to see what is left,
  and that cannot be done inside a character or behind the end (`ByteCursor.remaining?`), so
  that a call on it need not have an answer.
* `ByteCursor.call?_bytes`: where a `Cursor` stands every call has one. It is that of the
  `Cursor`, and the two come to the same place; so it is with calls one after another
  (`ByteCursor.run?_bytes`).
* `Cursor.Does` says what each call does in terms of the characters that are left: which of
  them it goes over, and what it answers with (`Cursor.does_call`).
* `cursor_stands_in_text` puts this together.
-/

namespace Innermost

/-- A place in a text, as the number of bytes before it. -/
structure ByteCursor where
  source : String
  offset : Nat
  deriving DecidableEq

namespace ByteCursor

/-- The place before the first character of a text. -/
def ofText (text : String) : ByteCursor := ⟨text, 0⟩

/-! ### Looking -/

/-- The text from the place on. A place that lies inside a character, or behind the end, cannot
be cut at. -/
def remaining? (c : ByteCursor) : Option String :=
  if String.Pos.Raw.IsValid c.source ⟨c.offset⟩ then
    some (Span.slice ⟨c.offset, c.source.utf8ByteSize⟩ c.source)
  else none

/-- The next character, if one is left. -/
def peek? (c : ByteCursor) : Option (Option Char) := c.remaining?.map (·.toList.head?)

/-- Whether every character has been consumed. -/
def atEnd (c : ByteCursor) : Bool := c.source.utf8ByteSize ≤ c.offset

/-- The empty region at the end of the text. -/
def endSpan (c : ByteCursor) : Span := .empty c.source.utf8ByteSize

/-- The region of the next character; at the end of the text, the empty region there. -/
def span? (c : ByteCursor) : Option Span :=
  c.peek?.map fun
    | none => c.endSpan
    | some x => ⟨c.offset, c.offset + x.utf8Size⟩

/-! ### Moving -/

/-- The place behind a character. -/
def pass (c : ByteCursor) (x : Char) : ByteCursor := { c with offset := c.offset + x.utf8Size }

/-- The next character, and the place behind it. -/
def next? (c : ByteCursor) : Option (Option Char × ByteCursor) :=
  c.peek?.map fun
    | none => (none, c)
    | some x => (some x, c.pass x)

/-- Before the end of a text there are bytes left. -/
lemma offset_lt_of_peek? {c : ByteCursor} {x : Char} (h : c.peek? = some (some x)) :
    c.offset < c.source.utf8ByteSize := by
  rw [peek?, Option.map_eq_some_iff] at h
  obtain ⟨s, hs, hx⟩ := h
  rw [remaining?] at hs
  split_ifs at hs with hvalid
  obtain rfl := Option.some.inj hs
  refine lt_of_le_of_ne hvalid.le_utf8ByteSize fun hend => ?_
  rw [hend, (continuesAt_end c.source).slice_rest] at hx
  cases hx

/-- The place before the next character that is not blank, by going over one character after
another. -/
def skipBlanks? (c : ByteCursor) : Option ByteCursor :=
  match _h : c.peek? with
  | none => none
  | some none => some c
  | some (some x) => if isBlank x then (c.pass x).skipBlanks? else some c
termination_by c.source.utf8ByteSize - c.offset
decreasing_by
  have hlt := offset_lt_of_peek? _h
  have hpos := Char.utf8Size_pos x
  simp only [pass]
  omega

lemma skipBlanks?_eq (c : ByteCursor) :
    c.skipBlanks? =
      match c.peek? with
      | none => none
      | some none => some c
      | some (some x) => if isBlank x then (c.pass x).skipBlanks? else some c := by
  rw [skipBlanks?]
  split <;> rename_i hpeek <;> rw [hpeek]

end ByteCursor

/-! ### Calls -/

namespace Cursor

/-- A call on a cursor. -/
inductive Call where
  | peek
  | next
  | atEnd
  | remaining
  | skipBlanks
  | span
  | endSpan
  deriving DecidableEq

/-- What a call answers with. -/
inductive Reply where
  | char (next : Option Char)
  | flag (answer : Bool)
  | text (text : String)
  | region (span : Span)
  | done
  deriving DecidableEq

/-- What a call answers with, and the cursor after it. -/
def call (c : Cursor) : Call → Reply × Cursor
  | .peek => (.char c.peek?, c)
  | .next => (.char c.peek?, c.next)
  | .atEnd => (.flag c.atEnd, c)
  | .remaining => (.text c.remaining, c)
  | .skipBlanks => (.done, c.skipBlanks)
  | .span => (.region c.span, c)
  | .endSpan => (.region c.endSpan, c)

/-- What calls answer with one after another, and the cursor after them. -/
def run (c : Cursor) : List Call → List Reply × Cursor
  | [] => ([], c)
  | call :: calls =>
      let (reply, c) := c.call call
      let (replies, c) := c.run calls
      (reply :: replies, c)

/-- The same place, as a number of bytes. -/
def bytes (c : Cursor) : ByteCursor := ⟨c.source, c.offset⟩

end Cursor

namespace ByteCursor

/-- What a call answers with, and the cursor after it; nothing if the text cannot be cut. -/
def call? (c : ByteCursor) : Cursor.Call → Option (Cursor.Reply × ByteCursor)
  | .peek => c.peek?.map fun x => (.char x, c)
  | .next => c.next?.map fun (x, c) => (.char x, c)
  | .atEnd => some (.flag c.atEnd, c)
  | .remaining => c.remaining?.map fun s => (.text s, c)
  | .skipBlanks => c.skipBlanks?.map fun c => (.done, c)
  | .span => c.span?.map fun s => (.region s, c)
  | .endSpan => some (.region c.endSpan, c)

/-- What calls answer with one after another, and the cursor after them; nothing if one of them
has no answer. -/
def run? (c : ByteCursor) : List Cursor.Call → Option (List Cursor.Reply × ByteCursor)
  | [] => some ([], c)
  | call :: calls =>
      (c.call? call).bind fun (reply, c) =>
        (c.run? calls).map fun (replies, c) => (reply :: replies, c)

end ByteCursor

/-! ### Where a cursor stands the text can be cut -/

namespace Cursor

variable {c : Cursor}

/-- A cursor stands between two characters of its text. -/
lemma continuesAt (c : Cursor) : ContinuesAt c.source c.offset c.rest :=
  ⟨c.passed.reverse, by rw [source, String.toList_ofList], byteLength_reverse c.passed⟩

/-- The place behind a gap is that behind what is left of the gap after a blank. -/
lemma skipBlanks_of_isBlank {x : Char} (hpeek : c.peek? = some x)
    (hx : isBlank x = true) : c.skipBlanks = c.next.skipBlanks := by
  rcases c with ⟨passed, _ | ⟨y, rest⟩⟩
  · cases hpeek
  · obtain rfl : y = x := Option.some.inj hpeek
    simp [skipBlanks, skipWhile, next, hx]

/-- Where there is no gap a cursor stays. -/
lemma skipBlanks_of_halts (h : ∀ x, c.peek? = some x → isBlank x = false) :
    c.skipBlanks = c := by
  rcases c with ⟨passed, _ | ⟨y, rest⟩⟩
  · rfl
  · simp [skipBlanks, skipWhile, h y rfl]

end Cursor

namespace ByteCursor

variable (c : Cursor)

lemma remaining?_bytes : c.bytes.remaining? = some c.remaining := by
  rw [remaining?, Cursor.bytes, if_pos c.continuesAt.isValid, c.continuesAt.slice_rest,
    Cursor.remaining]

lemma peek?_bytes : c.bytes.peek? = some c.peek? := by
  rw [peek?, remaining?_bytes, Option.map_some, Cursor.remaining, String.toList_ofList]
  rfl

lemma endSpan_bytes : c.bytes.endSpan = c.endSpan := by
  rw [Cursor.endSpan, Cursor.stop_eq]
  rfl

lemma atEnd_bytes : c.bytes.atEnd = c.atEnd := by
  have hstop : c.source.utf8ByteSize = c.offset + byteLength c.rest := c.stop_eq.symm
  rw [atEnd, Cursor.bytes, Cursor.atEnd, hstop]
  cases c.rest with
  | nil => simp
  | cons x rest =>
      have hpos := byteLength_pos x rest
      simp only [List.isEmpty_cons, decide_eq_false_iff_not]
      omega

lemma pass_bytes {c : Cursor} {x : Char} (h : c.peek? = some x) :
    c.bytes.pass x = c.next.bytes := by
  rw [Cursor.bytes, Cursor.bytes, Cursor.source_next, Cursor.offset_next_of_peek h]
  rfl

lemma next?_bytes : c.bytes.next? = some (c.peek?, c.next.bytes) := by
  rw [next?, peek?_bytes]
  cases hpeek : c.peek? with
  | none =>
      have hnext : c.next = c := by rw [Cursor.next, Cursor.rest_of_peek_none hpeek]
      rw [hnext]
      rfl
  | some x =>
      rw [← pass_bytes hpeek]
      rfl

lemma span?_bytes : c.bytes.span? = some c.span := by
  rw [span?, peek?_bytes]
  cases hpeek : c.peek? with
  | none =>
      rw [Cursor.span, Cursor.rest_of_peek_none hpeek, ← endSpan_bytes]
      rfl
  | some x =>
      rw [Cursor.span_of_peek hpeek]
      rfl

lemma skipBlanks?_bytes : c.bytes.skipBlanks? = some c.skipBlanks.bytes := by
  induction hrest : c.rest generalizing c with
  | nil =>
      have hpeek : c.peek? = none := by rw [Cursor.peek?, hrest, List.head?_nil]
      rw [skipBlanks?_eq, peek?_bytes, hpeek, Cursor.skipBlanks_of_halts (by simp [hpeek])]
  | cons x rest ih =>
      have hpeek : c.peek? = some x := by rw [Cursor.peek?, hrest, List.head?_cons]
      have hnext : c.next.rest = rest := by
        rw [Cursor.rest_of_peek hpeek] at hrest
        exact (List.cons.inj hrest).2
      rw [skipBlanks?_eq, peek?_bytes, hpeek]
      dsimp only
      split_ifs with hx
      · rw [pass_bytes hpeek, ih c.next hnext, Cursor.skipBlanks_of_isBlank hpeek hx]
      · rw [Cursor.skipBlanks_of_halts]
        intro y hy
        obtain rfl := Option.some.inj (hpeek.symm.trans hy)
        simpa using hx

/-- **Where a cursor stands every call has an answer**: that of the cursor, and the two come to
the same place. -/
theorem call?_bytes (call : Cursor.Call) :
    c.bytes.call? call = some ((c.call call).1, (c.call call).2.bytes) := by
  cases call with
  | peek => rw [call?, peek?_bytes]; rfl
  | next => rw [call?, next?_bytes]; rfl
  | atEnd => rw [call?, atEnd_bytes]; rfl
  | remaining => rw [call?, remaining?_bytes]; rfl
  | skipBlanks => rw [call?, skipBlanks?_bytes]; rfl
  | span => rw [call?, span?_bytes]; rfl
  | endSpan => rw [call?, endSpan_bytes]; rfl

/-- So it is with calls one after another. -/
theorem run?_bytes (calls : List Cursor.Call) :
    c.bytes.run? calls = some ((c.run calls).1, (c.run calls).2.bytes) := by
  induction calls generalizing c with
  | nil => rfl
  | cons call calls ih =>
      rw [run?, call?_bytes, Option.bind_some]
      dsimp only
      rw [ih]
      rfl

end ByteCursor

/-! ### What calls do -/

namespace Cursor

/-- What a call does if the text goes on with the characters `rest` from byte `place` on: it goes
over the characters `taken` of them, and answers with `reply`. -/
inductive Does (text : String) (place : Nat) :
    (rest : List Char) → Call → (taken : List Char) → Reply → Prop where
  | peek {rest} : Does text place rest .peek [] (.char rest.head?)
  | next {x rest} : Does text place (x :: rest) .next [x] (.char (some x))
  /-- At the end of the text there is no next character. -/
  | nextAtEnd : Does text place [] .next [] (.char none)
  | atEnd {rest} : Does text place rest .atEnd [] (.flag rest.isEmpty)
  | remaining {rest} : Does text place rest .remaining [] (.text (String.ofList rest))
  /-- The first character that is not blank is the next one, if there is one. -/
  | skipBlanks {gap rest} (blanks : Blanks gap)
      (halts : ∀ x, rest.head? = some x → isBlank x = false) :
      Does text place (gap ++ rest) .skipBlanks gap .done
  /-- The region holds the next character and nothing else. -/
  | span {x rest}
      (slice : Span.slice ⟨place, place + x.utf8Size⟩ text = String.ofList [x]) :
      Does text place (x :: rest) .span [] (.region ⟨place, place + x.utf8Size⟩)
  /-- At the end of the text it is empty. -/
  | spanAtEnd : Does text place [] .span [] (.region (.empty text.utf8ByteSize))
  | endSpan {rest} : Does text place rest .endSpan [] (.region (.empty text.utf8ByteSize))

/-- What is known of a cursor in a text. -/
structure StandsIn (text : String) (c : Cursor) : Prop where
  /-- What has been consumed and what is left are the text. -/
  text_eq : String.ofList c.passed.reverse ++ c.remaining = text
  /-- The place lies between two characters, behind the bytes that have been consumed. -/
  boundary : String.Pos.Raw.IsValid text ⟨c.offset⟩
  offset_eq : c.offset = (String.ofList c.passed.reverse).utf8ByteSize
  offset_le : c.offset ≤ text.utf8ByteSize
  /-- Everything is consumed exactly if there is no next character. -/
  atEnd_iff : c.atEnd = true ↔ (c.call .next).1 = .char none

lemma standsIn_source (c : Cursor) : c.StandsIn c.source where
  text_eq := by rw [remaining, ← String.ofList_append, source]
  boundary := c.continuesAt.isValid
  offset_eq := by rw [← byteLength_toList, String.toList_ofList, byteLength_reverse, offset]
  offset_le := c.continuesAt.isValid.le_utf8ByteSize
  atEnd_iff := by simp [atEnd, call, peek?]

/-- **A call goes over what it has to, and answers with what it has to.** -/
lemma does_call (c : Cursor) (call : Call) : ∃ taken,
    c.Passes taken (c.call call).2 ∧ Does c.source c.offset c.rest call taken (c.call call).1 := by
  cases call with
  | peek => exact ⟨[], .refl c, .peek⟩
  | next =>
      cases hpeek : c.peek? with
      | none =>
          have hrest := rest_of_peek_none hpeek
          have hnext : c.next = c := by rw [next, hrest]
          refine ⟨[], ?_, ?_⟩
          · rw [call, hnext]
            exact .refl c
          · rw [call, hpeek, hrest]
            exact .nextAtEnd
      | some x =>
          refine ⟨[x], passes_next hpeek, ?_⟩
          rw [call, hpeek, rest_of_peek hpeek]
          exact .next
  | atEnd => exact ⟨[], .refl c, .atEnd⟩
  | remaining => exact ⟨[], .refl c, .remaining⟩
  | skipBlanks =>
      have hpasses := c.passes_skipBlanks
      refine ⟨_, hpasses, ?_⟩
      conv in c.rest => rw [hpasses.rest_eq]
      exact .skipBlanks (blanks_takeWhile c.rest) fun x => not_isBlank_of_peek
  | span =>
      refine ⟨[], .refl c, ?_⟩
      cases hpeek : c.peek? with
      | none =>
          have hrest := rest_of_peek_none hpeek
          rw [call, span, hrest, endSpan, stop_eq]
          exact .spanAtEnd
      | some x =>
          have hplace := c.continuesAt
          rw [rest_of_peek hpeek] at hplace
          rw [call, span_of_peek hpeek, rest_of_peek hpeek]
          exact .span hplace.slice_cons
  | endSpan =>
      refine ⟨[], .refl c, ?_⟩
      rw [call, endSpan, stop_eq]
      exact .endSpan

lemma source_call (c : Cursor) (call : Call) : (c.call call).2.source = c.source := by
  obtain ⟨taken, hpasses, -⟩ := c.does_call call
  rw [source, source, hpasses.passed_eq, hpasses.rest_eq, List.reverse_append,
    List.reverse_reverse, List.append_assoc]

lemma source_run (c : Cursor) (calls : List Call) : (c.run calls).2.source = c.source := by
  induction calls generalizing c with
  | nil => rfl
  | cons call calls ih => exact (ih _).trans (c.source_call call)

end Cursor

/-- **A cursor stands between two characters of its text**, whatever calls it has had.

* What has been consumed and what is left are the text, and everything is consumed exactly if
  there is no next character.
* A cursor that holds its place as a number of bytes has answered all calls, with the same
  replies, and stands at the same place. So it is with each call after them.
* Such a call goes over characters that are left, and over none but the next one and blanks
  before the first character that is not blank. What it answers is told by those that are
  left. -/
theorem cursor_stands_in_text (text : String) (calls : List Cursor.Call) :
    let replies := ((Cursor.ofText text).run calls).1
    let c := ((Cursor.ofText text).run calls).2
    c.StandsIn text ∧
      (ByteCursor.ofText text).run? calls = some (replies, ⟨text, c.offset⟩) ∧
      ∀ call : Cursor.Call,
        ByteCursor.call? ⟨text, c.offset⟩ call =
            some ((c.call call).1, ⟨text, (c.call call).2.offset⟩) ∧
          ∃ taken, c.Passes taken (c.call call).2 ∧
            Cursor.Does text c.offset c.rest call taken (c.call call).1 := by
  intro replies c
  have hsource : c.source = text := (Cursor.source_run _ calls).trans (Cursor.source_ofText text)
  have hbytes : c.bytes = ⟨text, c.offset⟩ := by rw [Cursor.bytes, hsource]
  have hstart : (Cursor.ofText text).bytes = ByteCursor.ofText text := by
    rw [Cursor.bytes, Cursor.source_ofText]
    rfl
  refine ⟨hsource ▸ c.standsIn_source, ?_, fun call => ⟨?_, hsource ▸ c.does_call call⟩⟩
  · rw [← hstart, ByteCursor.run?_bytes, ← hbytes]
  · rw [← hbytes, ByteCursor.call?_bytes, Cursor.bytes, Cursor.source_call, hsource]

/-- Characters of one and of two bytes, and calls at the end. -/
example : ((Cursor.ofText "é )").run [.span, .next, .skipBlanks, .span, .next, .next, .span]).1 =
    [.region ⟨0, 2⟩, .char (some 'é'), .done, .region ⟨3, 4⟩, .char (some ')'), .char none,
      .region ⟨4, 4⟩] := by
  decide

end Innermost
