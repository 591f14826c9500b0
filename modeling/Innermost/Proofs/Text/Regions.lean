import Mathlib.Data.String.Basic
import Mathlib.Tactic
import Innermost.Diagnostic

/-!
Regions that lie in a text.

* `ContinuesAt` is what a scan knows of its place: the characters that are left, and that
  those before it fill the bytes before it. So the place lies between two characters
  (`ContinuesAt.isValid`), and what the scan goes over is a region of the text
  (`ContinuesAt.liesIn`).
* `Span.LiesIn`: the regions that end inside the text, no sooner than they begin, and cut
  no character.
* `Diagnostic.PointsInto`: diagnostics all of whose regions lie in a text, one behind
  another, and are as many as the cause has labels for.
-/

namespace Innermost

/-! ### Places -/

/-- The text goes on with the characters `cs` from byte `place` on. -/
def ContinuesAt (text : String) (place : Nat) (cs : List Char) : Prop :=
  ∃ before, text.toList = before ++ cs ∧ byteLength before = place

section Places

variable {text : String} {place : Nat} {c : Char} {cs ds : List Char}

lemma continuesAt_start (text : String) : ContinuesAt text 0 text.toList := ⟨[], rfl, rfl⟩

lemma continuesAt_end (text : String) : ContinuesAt text text.utf8ByteSize [] :=
  ⟨text.toList, (List.append_nil _).symm, byteLength_toList text⟩

/-- The place behind some of the characters that are left. -/
lemma ContinuesAt.append (h : ContinuesAt text place (cs ++ ds)) :
    ContinuesAt text (place + byteLength cs) ds := by
  obtain ⟨before, htext, rfl⟩ := h
  exact ⟨before ++ cs, by rw [htext, List.append_assoc], byteLength_append before cs⟩

lemma ContinuesAt.cons (h : ContinuesAt text place (c :: cs)) :
    ContinuesAt text (place + c.utf8Size) cs := by
  have hcons : ContinuesAt text place ([c] ++ cs) := h
  simpa using hcons.append

/-- A place between two characters. -/
lemma ContinuesAt.isValid (h : ContinuesAt text place cs) :
    String.Pos.Raw.IsValid text ⟨place⟩ := by
  obtain ⟨before, htext, rfl⟩ := h
  refine String.Pos.Raw.isValid_iff_exists_append.mpr
    ⟨String.ofList before, String.ofList cs, ?_, ?_⟩
  · rw [← String.ofList_append, ← htext, String.ofList_toList]
  · rw [String.rawEndPos, ← byteLength_toList, String.toList_ofList]

end Places

/-! ### Regions -/

/-- The region lies in the text, and cuts no character of it. -/
structure Span.LiesIn (text : String) (s : Span) : Prop where
  start_le_stop : s.start ≤ s.stop
  stop_le_size : s.stop ≤ text.utf8ByteSize
  start_isValid : String.Pos.Raw.IsValid text ⟨s.start⟩
  stop_isValid : String.Pos.Raw.IsValid text ⟨s.stop⟩

section Regions

variable {text : String} {place : Nat} {c : Char} {cs ds : List Char} {s t : Span}

/-- What a scan goes over is a region of the text. -/
lemma ContinuesAt.liesIn (h : ContinuesAt text place (cs ++ ds)) :
    Span.LiesIn text ⟨place, place + byteLength cs⟩ :=
  ⟨Nat.le_add_right _ _, h.append.isValid.le_utf8ByteSize, h.isValid, h.append.isValid⟩

/-- So is a character. -/
lemma ContinuesAt.liesIn_cons (h : ContinuesAt text place (c :: cs)) :
    Span.LiesIn text ⟨place, place + c.utf8Size⟩ :=
  ⟨Nat.le_add_right _ _, h.cons.isValid.le_utf8ByteSize, h.isValid, h.cons.isValid⟩

/-- So is all that is left. -/
lemma ContinuesAt.liesIn_rest (h : ContinuesAt text place cs) :
    Span.LiesIn text ⟨place, text.utf8ByteSize⟩ :=
  ⟨h.isValid.le_utf8ByteSize, le_rfl, h.isValid, (continuesAt_end text).isValid⟩

/-- The empty region at the end of a text. -/
lemma Span.liesIn_end (text : String) : Span.LiesIn text (.empty text.utf8ByteSize) :=
  (continuesAt_end text).liesIn_rest

lemma Span.liesIn_whole (text : String) : Span.LiesIn text (.whole text) :=
  (continuesAt_start text).liesIn_rest

lemma Span.LiesIn.through (hs : s.LiesIn text) (ht : t.LiesIn text) (h : s.start ≤ t.stop) :
    (s.through t).LiesIn text :=
  ⟨h, ht.stop_le_size, hs.start_isValid, ht.stop_isValid⟩

end Regions

/-! ### What regions hold -/

/-- The text in a region. -/
def Span.slice (s : Span) (text : String) : String :=
  String.Pos.Raw.extract text ⟨s.start⟩ ⟨s.stop⟩

lemma utf8Len_eq_byteLength (cs : List Char) : String.utf8Len cs = byteLength cs := by
  induction cs with
  | nil => rfl
  | cons c cs ih => rw [String.utf8Len_cons, byteLength_cons, ih, Nat.add_comm]

/-- What a scan goes over is what its region holds. -/
lemma ContinuesAt.slice {text : String} {place : Nat} {cs ds : List Char}
    (h : ContinuesAt text place (cs ++ ds)) :
    Span.slice ⟨place, place + byteLength cs⟩ text = String.ofList cs := by
  obtain ⟨before, htext, rfl⟩ := h
  have hofList : text = String.ofList (before ++ cs ++ ds) := by
    rw [List.append_assoc, ← htext, String.ofList_toList]
  rw [Span.slice, hofList, ← utf8Len_eq_byteLength, ← utf8Len_eq_byteLength]
  exact String.extract_of_valid before cs ds

/-- The region of a character holds it. -/
lemma ContinuesAt.slice_cons {text : String} {place : Nat} {c : Char} {cs : List Char}
    (h : ContinuesAt text place (c :: cs)) :
    Span.slice ⟨place, place + c.utf8Size⟩ text = String.ofList [c] := by
  have hcons : ContinuesAt text place ([c] ++ cs) := h
  simpa using hcons.slice

/-- The region of all that is left holds it. -/
lemma ContinuesAt.slice_rest {text : String} {place : Nat} {cs : List Char}
    (h : ContinuesAt text place cs) :
    Span.slice ⟨place, text.utf8ByteSize⟩ text = String.ofList cs := by
  have hsize : text.utf8ByteSize = place + byteLength cs := by
    obtain ⟨before, htext, rfl⟩ := h
    rw [← byteLength_toList, htext, byteLength_append]
  rw [← List.append_nil cs] at h
  rw [hsize, h.slice]

/-! ### Diagnostics -/

/-- The diagnostic points into the text: its regions lie in it, one behind another, and
there are as many of them as there are labels for its cause. -/
structure Diagnostic.PointsInto (text : String) (d : Diagnostic) : Prop where
  liesIn : ∀ s ∈ d.spans, s.LiesIn text
  ordered : d.spans.Pairwise fun a b => a.stop ≤ b.start
  length_spans : d.spans.length = d.cause.wording.labels.length

namespace Diagnostic

variable {text : String} {cause : Cause} {s : Span}

lemma pointsInto_singleton (hs : s.LiesIn text) (hlabels : 1 = cause.wording.labels.length) :
    PointsInto text ⟨cause, [s]⟩ :=
  ⟨by simpa using hs, List.pairwise_singleton _ _, hlabels⟩

/-- Every label is shown. -/
lemma PointsInto.labels_eq {d : Diagnostic} (h : d.PointsInto text) :
    d.labels = d.cause.wording.labels := by
  rw [labels, h.length_spans, List.take_length]

end Diagnostic

end Innermost
