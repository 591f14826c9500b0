import Innermost.CommandLine.Output
import Innermost.CommandLine.Session
import Innermost.Proofs.Grammar.Scan

/-!
Lines, and which of them are blank.

* A line holds no line feed, whether it was read from a text (`newline_not_mem_of_mem_lines`)
  or typed (`newline_not_mem_of_typed`), and read alone it is the line that it is
  (`lines_line`).
* White space is more than what separates the parts of an expression, so a line that is not
  blank is never told to end too early (`cause_ne_unexpectedEnd`).
* `isEmpty_trim` and `afterRandom_eq_some_iff` say what a session looks at.
-/

namespace Innermost

/-! ### Bytes of a text -/

/-- Bytes are read as the text that they are the form of. -/
lemma fromUTF8?_eq_some_iff {bytes : ByteArray} {text : String} :
    String.fromUTF8? bytes = some text ↔ text.toUTF8 = bytes := by
  rw [String.fromUTF8?]
  split
  · next h => exact ⟨fun heq => by cases heq; rfl, fun heq => by subst heq; rfl⟩
  · next h => exact iff_of_false (by simp) fun heq => h (heq ▸ text.isValidUTF8)

/-! ### Lines of a text -/

/-- The end of a line, which may hold a carriage return too, is no part of it. -/
lemma newline_not_mem_of_mem_linesFrom {line cs : List Char} {l : String} (hline : '\n' ∉ line)
    (h : l ∈ linesFrom line cs) : '\n' ∉ l.toList := by
  fun_induction linesFrom line cs with
  | case1 line hempty => cases h
  | case2 line _ =>
      rw [List.mem_singleton.mp h]
      simpa using hline
  | case3 line cs shorter ih =>
      obtain rfl | h := List.mem_cons.mp h
      · have hsub : shorter ⊆ line := by
          simp only [shorter]
          split
          · exact List.subset_cons_self _ _
          · exact List.Subset.refl _
        simpa using fun hmem => hline (hsub hmem)
      · exact ih (by simp) h
  | case4 line c cs hc ih =>
      exact ih (by simpa using ⟨fun h => hc h.symm, hline⟩) h

lemma newline_not_mem_of_mem_lines {text line : String} (h : line ∈ lines text) :
    '\n' ∉ line.toList :=
  newline_not_mem_of_mem_linesFrom (by simp) h

/-- Characters without a line feed are one line. -/
lemma linesFrom_of_newline_not_mem {line cs : List Char} (h : '\n' ∉ cs)
    (hne : line.reverse ++ cs ≠ []) : linesFrom line cs = [String.ofList (line.reverse ++ cs)] := by
  fun_induction linesFrom line cs with
  | case1 line hempty => simp_all
  | case2 line _ => simp
  | case3 line cs _ _ => simp at h
  | case4 line c cs _ ih =>
      rw [ih (fun hmem => h (.tail _ hmem)) (by simp)]
      simp

/-- A line is the only line of itself. -/
lemma lines_line {line : String} (h : '\n' ∉ line.toList) (hne : line ≠ "") :
    lines line = [line] := by
  rw [lines, linesFrom_of_newline_not_mem h (by simpa using hne)]
  simp

/-! ### Blank lines -/

/-- A line that is not blank holds more than what separates the parts of an expression, so it
is never told to end too early. -/
lemma cause_ne_unexpectedEnd {line : String} (hline : isBlankLine line = false) {d : Diagnostic}
    (h : Expr.parse line = .error d) : d.cause ≠ .read .unexpectedEnd := by
  intro hcause
  obtain ⟨cause, spans⟩ := d
  obtain rfl : cause = .read .unexpectedEnd := hcause
  have hending := (Scan.fault_eq_unexpectedEnd_iff.mp (Expr.parse_eq_error_iff_fault.mp h)).1
  have hblank : isBlankLine line = true :=
    List.all_eq_true.mpr fun c hc => isSpace_of_isBlank (Scan.ofText_eq_blank_iff.mp hending c hc)
  exact absurd hblank (by simp [hline])

/-- Nothing is left of a blank line, and only of a blank line, when it is trimmed. -/
lemma isEmpty_trim (line : String) : (trim line).isEmpty = isBlankLine line := by
  rw [Bool.eq_iff_iff, isBlankLine, List.all_eq_true, trim, String.isEmpty_iff,
    String.ofList_eq_empty_iff, List.reverse_eq_nil_iff, List.dropWhile_eq_nil_iff]
  constructor
  · intro h c hc
    rw [← List.takeWhile_append_dropWhile (p := isSpace) (l := line.toList)] at hc
    obtain hc | hc := List.mem_append.mp hc
    · exact List.mem_takeWhile_imp hc
    · exact h c (List.mem_reverse.mpr hc)
  · exact fun h c hc => h c ((List.dropWhile_sublist isSpace).subset (List.mem_reverse.mp hc))

/-! ### What a session looks at -/

/-- A line is taken for a command exactly if it begins with `:random`. -/
lemma afterRandom_eq_some_iff {cs ds : List Char} :
    afterRandom cs = some ds ↔ ":random".toList ++ ds = cs := by
  rw [show ":random".toList = [':', 'r', 'a', 'n', 'd', 'o', 'm'] from rfl]
  fun_cases afterRandom cs with
  | case1 cs => simp [eq_comm]
  | case2 cs hne => exact iff_of_false (by simp) fun h => hne ds (by simpa using h.symm)

lemma afterRandom_eq_none_iff {cs : List Char} :
    afterRandom cs = none ↔ ¬ ":random".toList <+: cs := by
  rw [← not_iff_not, not_not, ← ne_eq, Option.ne_none_iff_exists']
  exact exists_congr fun ds => afterRandom_eq_some_iff

/-! ### Lines that are typed -/

section Typing

variable {c : Char}

/-- What a backspace leaves was there before. -/
lemma mem_of_dropBytes {size : Nat} {cs ds : List Char} (h : dropBytes size cs = some ds)
    (hc : c ∈ ds) : c ∈ cs := by
  fun_induction dropBytes size cs with
  | case1 cs =>
      cases h
      exact hc
  | case2 size => cases h
  | case3 size d cs _ ih => exact .tail _ (ih h)
  | case4 size d cs _ => cases h

/-- A character comes into the line by being typed. -/
lemma mem_of_press {t t' : Typed} {cluster : List Char} (h : t.press cluster = some t')
    (hc : c ∈ t'.text) : c ∈ cluster ∨ c ∈ t.text := by
  rw [Typed.press] at h
  split_ifs at h with hback
  · split at h
    · cases h
      exact .inr hc
    · obtain ⟨ds, hds, rfl⟩ := Option.map_eq_some_iff.mp h
      exact .inr (mem_of_dropBytes hds hc)
  · cases h
    simpa using hc

lemma mem_of_foldlM_press {ks : List (List Char)} {t t' : Typed}
    (h : ks.foldlM Typed.press t = some t') (hc : c ∈ t'.text) :
    c ∈ ks.flatten ∨ c ∈ t.text := by
  induction ks generalizing t with
  | nil =>
      cases h
      exact .inr hc
  | cons k ks ih =>
      rw [List.foldlM_cons] at h
      obtain ⟨t₁, hk, ht₁⟩ := Option.bind_eq_some_iff.mp h
      rw [List.flatten_cons, List.mem_append, or_assoc, or_left_comm]
      exact (ih ht₁).imp_right (mem_of_press hk)

/-- A line holds only what was typed. -/
lemma mem_of_typedText {line line' : String} (h : typedText line = some line')
    (hc : c ∈ line'.toList) : c ∈ line.toList := by
  obtain ⟨t, ht, rfl⟩ := Option.map_eq_some_iff.mp h
  obtain hmem | hmem := mem_of_foldlM_press ht (by simpa using hc)
  · rwa [flatten_clusters] at hmem
  · cases hmem

end Typing

/-- The byte of the line feed is in every text with a line feed. -/
lemma newline_byte_mem {bytes : ByteArray} {line : String}
    (h : String.fromUTF8? bytes = some line) (hline : '\n' ∈ line.toList) :
    10 ∈ bytes.data.toList := by
  rw [← fromUTF8?_eq_some_iff.mp h, String.toUTF8, ← String.utf8Encode_toList, List.utf8Encode]
  simpa using ⟨'\n', hline, by decide⟩

lemma newline_not_mem_of_ofBytes {bytes : List UInt8} {line : String} (hbytes : 10 ∉ bytes)
    (h : TypedLine.ofBytes bytes = .text line) : '\n' ∉ line.toList := by
  intro hmem
  rw [TypedLine.ofBytes] at h
  split at h
  · cases h
  · next raw hraw =>
      split at h
      · cases h
      · next line' hline' =>
          cases h
          have := newline_byte_mem hraw (mem_of_typedText hline' hmem)
          exact hbytes (by simpa using this)

lemma newline_not_mem_of_typedLinesFrom {line bytes : List UInt8} {l : String} (hline : 10 ∉ line)
    (h : .text l ∈ typedLinesFrom line bytes) : '\n' ∉ l.toList := by
  fun_induction typedLinesFrom line bytes with
  | case1 line hempty => cases h
  | case2 line _ => exact newline_not_mem_of_ofBytes hline (List.mem_singleton.mp h).symm
  | case3 line bytes shorter ih =>
      obtain h | h := List.mem_cons.mp h
      · have hsub : shorter ⊆ line := by
          simp only [shorter]
          split
          · exact List.subset_cons_self _ _
          · exact List.Subset.refl _
        exact newline_not_mem_of_ofBytes (fun hmem => hline (hsub hmem)) h.symm
      · exact ih (by simp) h
  | case4 line b bytes hb ih =>
      exact ih (by simpa using ⟨fun h => hb h.symm, hline⟩) h

lemma newline_not_mem_of_typed {bytes : ByteArray} {line : String}
    (h : .text line ∈ typedLines bytes) : '\n' ∉ line.toList :=
  newline_not_mem_of_typedLinesFrom (by simp) h

end Innermost
