import Innermost.Proofs.Literal.Nesting
import Innermost.Proofs.Meaning.Reflection
import Innermost.Proofs.Reducing.Nodes

/-!
The parentheses in what a trace hands to its evaluator.

* `OpensWithin`: a step opens no parentheses that there were not before, neither those of groups
  nor those in words, since an evaluator's answer holds none (`OpensWithin.step`).
* `mostOpen_words`: of a group of words all parentheses are open at once, because no word closes
  one. The depth of the expression counts its own one only: `crowded n` is nested once, and has
  `n` more parentheses open in its first word (`nesting_crowded`).
* `traceRun_nesting` puts this together for the texts that the evaluator of a trace is asked
  about, and `nesting_unlimited` for those that are crowded.
-/

namespace Innermost

open Innermost.Expr (Located)

/-- What an evaluator may answer opens no parenthesis. -/
lemma opening_notMem_of_isAtomic {value : String} (h : isAtomic value = true) :
    '(' ∉ value.toList := by
  intro hmem
  rw [isAtomic, Bool.and_eq_true, List.all_eq_true] at h
  exact absurd (h.2 _ hmem) (by decide)

namespace Expr

/-! ### Parentheses of an expression -/

lemma openings_atom (s : String) : openings (atom s).lexemes = s.toList.count '(' := by
  rw [lexemes_atom, openings_lexemes]

/-- Neighbours that are atoms open the parentheses in their words. -/
lemma openings_lexemesAll_atoms (words : List String) :
    openings (lexemesAll (words.map atom)) = (words.map (·.toList.count '(')).sum := by
  induction words with
  | nil => rfl
  | cons word words ih =>
      rw [List.map_cons, lexemesAll_cons, openings_append, openings_atom, ih, List.map_cons,
        List.sum_cons]

/-- A reducible group is one of words. -/
lemma exists_words_of_isReducible {e : Expr} (h : e.isReducible = true) :
    ∃ words : List String, e = group (words.map atom) := by
  cases e with
  | atom s => simp [isReducible, isDeepest] at h
  | group es =>
      have hrange : es ∈ Set.range (List.map atom) := by
        rw [Set.range_list_map]
        intro d hd
        obtain ⟨s, rfl⟩ := exists_eq_atom_of_mem h hd
        exact ⟨s, rfl⟩
      obtain ⟨words, rfl⟩ := hrange
      exact ⟨words, rfl⟩

/-! ### One step -/

/-- What holds of all words holds of them as well with another such word in place of a node. -/
lemma forall_words_replace {Q : String → Prop} {e : Expr} {value : String}
    (he : ∀ word, .atom word ∈ e.nodes → Q word) (hvalue : Q value) (p : Path) :
    ∀ word, .atom word ∈ (e.replace p (.atom value)).nodes → Q word := by
  induction p generalizing e with
  | nil =>
      intro word hword
      rw [replace_nil, nodes, List.mem_singleton, atom.injEq] at hword
      exact hword ▸ hvalue
  | cons i p ih =>
      cases e with
      | atom s => exact he
      | group es =>
          rw [replace_group_cons, forall_words_group_iff]
          exact forall_mem_modify (fun d hd => ih hd) (forall_words_group_iff.mp he) i

/-- Whether `d` opens no parentheses but such as `e` does, be it for groups or in words. -/
structure OpensWithin (e d : Expr) : Prop where
  openings_le : openings d.lexemes ≤ openings e.lexemes
  word_mem : ∀ word, .atom word ∈ d.nodes → '(' ∈ word.toList → .atom word ∈ e.nodes

lemma OpensWithin.refl (e : Expr) : e.OpensWithin e := ⟨le_rfl, fun _ h _ => h⟩

/-- **A step opens no parentheses that there were not before.** -/
lemma OpensWithin.step {e d : Expr} {t : Located} {value : String} (h : e.OpensWithin d)
    (ht : d.target? = some t) (hvalue : '(' ∉ value.toList) :
    e.OpensWithin (d.replace t.path (.atom value)).regrouped := by
  obtain ⟨pre, suf, hlexemes, hreplace⟩ := exists_lexemes_replace (get?_of_target? ht).1
  have hnone : openings (atom value).lexemes = 0 := by
    rw [openings_atom, List.count_eq_zero]
    exact hvalue
  have hle : openings (d.replace t.path (.atom value)).lexemes ≤ openings e.lexemes := by
    refine le_trans ?_ h.openings_le
    rw [hreplace, hlexemes]
    simp only [openings_append, hnone]
    omega
  have hwords := forall_words_replace h.word_mem (fun hmem => absurd hmem hvalue) t.path
  cases hnext : d.replace t.path (.atom value) with
  | group es =>
      rw [hnext] at hle hwords
      exact ⟨hle, hwords⟩
  | atom s =>
      -- the whole was one group, whose parentheses are those around the value
      cases eq_atom_of_replace (isAtom_eq_false_of_target? ht) hnext
      have hpos : 1 ≤ openings d.lexemes := by
        cases d with
        | atom s => simp [target?] at ht
        | group es => rw [lexemes_group, openings_bracketed]; omega
      refine ⟨?_, fun word hword hmem => ?_⟩
      · have := h.openings_le
        rw [regrouped, lexemes_group, openings_bracketed, lexemesAll_cons, lexemesAll_nil,
          List.append_nil, hnone]
        omega
      · obtain rfl : word = value := by simpa [regrouped, nodes] using hword
        exact absurd hmem hvalue

/-- What is inside a node stands in the whole. -/
lemma OpensWithin.node {e d n : Expr} {p : Path} (h : e.OpensWithin d) (hn : d.get? p = some n) :
    e.OpensWithin n := by
  obtain ⟨pre, suf, hlexemes, -⟩ := exists_lexemes_replace hn
  refine ⟨le_trans ?_ h.openings_le, ?_⟩
  · rw [hlexemes, openings_append, openings_append]
    omega
  · exact of_get? (P := fun d => ∀ word, .atom word ∈ d.nodes → '(' ∈ word.toList →
      .atom word ∈ e.nodes) forall_words_group_iff.mp h.word_mem hn

/-! ### Groups of words -/

section Words

variable {words : List String} (h : (group (words.map atom)).Legible)
include h

/-- Words close no parenthesis. -/
lemma closings_words : closings (lexemesAll (words.map atom)) = 0 := by
  refine closings_lexemesAll_of_all_isAtom (legible_group_iff.mp h) ?_
  rw [List.all_eq_true, List.forall_mem_map]
  exact fun _ _ => rfl

/-- **Of a group of words all parentheses are open at once**: its own, and those in the words. -/
lemma mostOpen_words :
    mostOpen 0 ((tokens (group (words.map atom)).text).map Token.bare) =
      1 + (words.map (·.toList.count '(')).sum := by
  rw [bare_tokens, h.lexemes_text, lexemes_group, mostOpen_bracketed (closings_words h),
    openings_bracketed, openings_lexemesAll_atoms, Nat.add_comm]

/-- A group of words that has a value has no parentheses in its words. -/
lemma sum_eq_zero_of_evaluate {v : Value}
    (hv : Innermost.evaluate (group (words.map atom)).text = .ok v) :
    (words.map (·.toList.count '(')).sum = 0 := by
  have hbalance := (h.evaluate_text_iff.mp hv).balance
  rw [lexemes_group, openings_bracketed, closings_bracketed, openings_lexemesAll_atoms,
    closings_words h] at hbalance
  omega

end Words

/-! ### Words that are crowded with parentheses -/

/-- A minus sign, `n` parentheses and a digit. -/
def crowdedWord (n : Nat) : String := "-" ++ String.ofList (List.replicate n '(') ++ "1"

/-- A group of two words, with `n` parentheses in the first one. -/
def crowded (n : Nat) : Expr := .group [.atom (crowdedWord n), .atom "2"]

lemma toList_text_crowded (n : Nat) :
    (crowded n).text.toList = '(' :: '-' :: (List.replicate n '(' ++ ['1', ' ', '2', ')']) := by
  simp [crowded, crowdedWord, text_group]

lemma text_crowded (n : Nat) :
    (crowded n).text = "(-" ++ String.ofList (List.replicate n '(') ++ "1 2)" := by
  rw [String.ext_iff, toList_text_crowded]
  simp

lemma readable_crowded (n : Nat) : (crowded n).Readable := by
  have hword : IsWord (crowdedWord n) := by
    have hchars : ∀ c ∈ (crowdedWord n).toList, c = '-' ∨ c = '(' ∨ c = '1' := by
      simp +contextual [crowdedWord, or_imp]
    rw [isWord_iff]
    refine ⟨by simp [crowdedWord], fun c hc => ?_, by simp [crowdedWord]⟩
    rcases hchars c hc with rfl | rfl | rfl <;> decide
  have htwo : IsWord "2" := isWord_of_isAtomic (by decide)
  refine ⟨legible_group_iff.mpr ?_, ?_⟩
  · simpa [legible_atom_iff] using ⟨hword, htwo⟩
  · simp [crowded, maxDepth]

/-- The lexemes behind the parentheses. -/
def crowdedEnd : List Lexeme := [⟨.integer, "1"⟩, ⟨.integer, "2"⟩, .closing]

lemma lexemes_crowded (n : Nat) :
    (tokens (crowded n).text).map Token.bare =
      .opening :: ⟨.operator .sub, "-"⟩ :: (List.replicate n .opening ++ crowdedEnd) := by
  have hend : Innermost.lexemes ['1', ' ', '2', ')'] = crowdedEnd := by decide +kernel
  have hcrowd : Innermost.lexemes (List.replicate n '(' ++ ['1', ' ', '2', ')']) =
      List.replicate n .opening ++ crowdedEnd := by
    induction n with
    | zero => exact hend
    | succ n ih =>
        rw [List.replicate_succ, List.cons_append, lexemes_opening, ih]
        rfl
  rw [bare_tokens, toList_text_crowded, lexemes_opening, lexemes_minus, hcrowd]

/-- No depth is too much for the evaluator, which goes on to the integer behind the first one. -/
lemma exists_evaluate_crowded (n : Nat) :
    ∃ place, Innermost.evaluate (crowded n).text = .error (unclosedAt place) := by
  let one : Number := ⟨1, by decide, by decide⟩
  let minusOne : Number := ⟨-1, by decide, by decide⟩
  have hone : one.val = Lexeme.number ⟨.integer, "1"⟩ := by decide +kernel
  have hminus : minusOne.val = -Lexeme.number ⟨.integer, "1"⟩ := by decide +kernel
  exact exists_evaluate_eq_unclosed (lexemes_crowded n) (.integer rfl hone)
    (.negative rfl rfl hminus) rfl

/-- **There is no limit to the parentheses of a text that is read as a single group.** -/
lemma nesting_crowded (n : Nat) :
    mostOpen 0 ((tokens (crowded n).text).map Token.bare) = n + 1 ∧
      evaluationNesting (crowded n).text = n + 1 := by
  have hopen : mostOpen 0 ((tokens (crowded n).text).map Token.bare) = n + 1 := by
    have hlegible : (group ([crowdedWord n, "2"].map atom)).Legible := (readable_crowded n).legible
    refine (mostOpen_words hlegible).trans ?_
    simp [crowdedWord, Nat.add_comm]
  have hle : evaluationNesting (crowded n).text ≤ n + 1 := hopen ▸ evaluationNesting_le _
  exact ⟨hopen, hle.antisymm (le_evaluationNesting (lexemes_crowded n))⟩

end Expr

/-! ### Traces -/

section Traces

variable {ctx : Context} {source text : String} {left taken : Nat} {e : Expr}

/-- What the evaluator is asked about are groups of words, and what they open is in the
expression at the start. -/
theorem exists_words_of_mem_asked (he : e.Readable)
    (h : text ∈ (historyFrom ctx source left taken e).run.asked) :
    ∃ words : List String, (Expr.group (words.map .atom)).Legible ∧
      (Expr.group (words.map .atom)).text = text ∧
      e.OpensWithin (Expr.group (words.map .atom)) := by
  obtain ⟨d, hd, t, ht, rfl⟩ := exists_mem_held_of_mem_asked he h
  have hwithin : e.OpensWithin d := forall_mem_held (I := e.OpensWithin)
    (fun _ ht hv hd => hd.step ht (opening_notMem_of_isAtomic (Expr.isAtomic_of_evaluate hv)))
    he (.refl e) d hd
  obtain ⟨hget, hr⟩ := Expr.get?_of_target? ht
  obtain ⟨words, hwords⟩ := Expr.exists_words_of_isReducible hr
  rw [hwords] at hget ⊢
  exact ⟨words, (readable_of_mem_held he hd).legible.of_get? hget, rfl, hwithin.node hget⟩

/-- **When the limit of the depth holds for the evaluator as well.** What a trace hands to its
evaluator is a group of words, and has open at once its own parenthesis and all those in its
words. So no more than `maxDepth` are open at once exactly if there are fewer than `maxDepth` in
the words.

The evaluator is inside of no more parentheses than are open. Words with a parenthesis are those
of the expression that was read, and its text has as many parentheses as any group that is handed
on. A group that has a value opens its own parenthesis only. -/
theorem traceRun_nesting (ctx : Context) (hparse : Expr.parse source = .ok e)
    (htext : text ∈ (traceRun ctx source).asked) :
    ∃ words : List String, text = (Expr.group (words.map .atom)).text ∧
      let inside := (words.map (·.toList.count '(')).sum
      mostOpen 0 ((tokens text).map Token.bare) = 1 + inside ∧
      (mostOpen 0 ((tokens text).map Token.bare) ≤ maxDepth ↔ inside < maxDepth) ∧
      evaluationNesting text ≤ 1 + inside ∧
      (∀ word ∈ words, '(' ∈ word.toList → .atom word ∈ e.preOrder) ∧
      1 + inside ≤ source.toList.count '(' ∧
      ∀ v, evaluate text = .ok v → inside = 0 := by
  rw [← run_historyOf, historyOf_of_parse hparse] at htext
  obtain ⟨words, hlegible, rfl, hwithin⟩ :=
    exists_words_of_mem_asked (Expr.readable_of_parse hparse) htext
  have hopen := Expr.mostOpen_words hlegible
  refine ⟨words, rfl, hopen, by rw [hopen, Nat.add_comm]; exact Nat.succ_le_iff,
    hopen ▸ evaluationNesting_le _, fun word hword hmem => ?_, ?_,
    fun v hv => Expr.sum_eq_zero_of_evaluate hlegible hv⟩
  · have hwords := Expr.forall_words_group_iff.mp hwithin.word_mem
    rw [Expr.preOrder_eq_nodes]
    exact hwords (.atom word) (List.mem_map_of_mem hword) word (by simp [Expr.nodes]) hmem
  · rw [← openings_lexemes, Expr.lexemes_of_parse hparse]
    have := hwithin.openings_le
    rwa [Expr.lexemes_group, openings_bracketed, Expr.openings_lexemesAll_atoms,
      Nat.add_comm] at this

/-- A group of values opens one parenthesis, and a word that brings another one does so in each
group that it comes to stand in. -/
theorem traceRun_nesting_call :
    let source := "(f(x (1 + 2))"
    Expr.parse source = .ok (.group [.atom "f(x", .group [.atom "1", .atom "+", .atom "2"]]) ∧
      (traceRun {} source).asked = ["(1 + 2)", "(f(x 3)"] ∧
      mostOpen 0 ((tokens "(1 + 2)").map Token.bare) = 1 ∧ evaluationNesting "(f(x 3)" ≤ 3 := by
  intro source
  have hparse : Expr.parse source =
      .ok (.group [.atom "f(x", .group [.atom "1", .atom "+", .atom "2"]]) := by decide +kernel
  have hasked : (traceRun {} source).asked = ["(1 + 2)", "(f(x 3)"] := by decide +kernel
  have hvalue : (evaluate "(1 + 2)").toOption.isSome = true := by decide +kernel
  have hfirst : "(1 + 2)" ∈ (traceRun {} source).asked := by simp [hasked]
  have hsecond : "(f(x 3)" ∈ (traceRun {} source).asked := by simp [hasked]
  obtain ⟨words, -, hopen, -, -, -, -, hzero⟩ := traceRun_nesting {} hparse hfirst
  obtain ⟨words', -, -, -, hnesting, -, hle, -⟩ := traceRun_nesting {} hparse hsecond
  refine ⟨hparse, hasked, ?_, hnesting.trans (hle.trans (by decide))⟩
  cases hv : evaluate "(1 + 2)" with
  | error d => simp [hv, Except.toOption] at hvalue
  | ok v => rw [hopen, hzero v hv]

/-! ### Texts that the depth does not limit -/

/-- **The depth of an expression does not limit what the evaluator goes into.** A crowded group is
of depth one, is read from its text, and is handed to the evaluator. This goes into all of its
parentheses, and fails of something else than their number. -/
theorem nesting_unlimited (n : Nat) :
    let text := (Expr.crowded n).text
    Expr.parse text = .ok (Expr.crowded n) ∧ (Expr.crowded n).depth = 1 ∧
      mostOpen 0 ((tokens text).map Token.bare) = n + 1 ∧ evaluationNesting text = n + 1 ∧
      (traceRun {} text).asked = [text] ∧
      ∃ place, (traceRun {} text).outcome = .error ⟨.group, text, unclosedAt place⟩ := by
  intro text
  have he := Expr.readable_crowded n
  have ht : (Expr.crowded n).target? = some ⟨[], Expr.crowded n⟩ := rfl
  obtain ⟨hopen, hnesting⟩ := Expr.nesting_crowded n
  obtain ⟨place, hplace⟩ := Expr.exists_evaluate_crowded n
  have hv : ((Expr.crowded n).evaluate .literal).answer =
      .error (.inGroup text (unclosedAt place)) := by
    rw [Expr.evaluate_of_isReducible _ rfl, Evaluator.literal, hplace]
    rfl
  refine ⟨he.parse_text, by simp [Expr.crowded], hopen, hnesting, ?_⟩
  rw [← run_historyOf, historyOf_of_parse he.parse_text, (Stops.failed ht hv).historyFrom_eq]
  exact ⟨rfl, place, rfl⟩

/-- One parenthesis of a group and 256 in its first word are all entered, and the evaluator then
stops for another reason. -/
theorem nesting_beyond_maxDepth :
    let source := "(-" ++ String.ofList (List.replicate 256 '(') ++ "1 2)"
    Expr.parse source = .ok (Expr.crowded 256) ∧ (traceRun {} source).asked = [source] ∧
      maxDepth < mostOpen 0 ((tokens source).map Token.bare) ∧
      maxDepth < evaluationNesting source ∧
      ∃ place, (traceRun {} source).outcome = .error ⟨.group, source, unclosedAt place⟩ := by
  intro source
  have hsource : (Expr.crowded 256).text = source := Expr.text_crowded 256
  obtain ⟨hparse, -, hopen, hnesting, hasked, hfails⟩ := nesting_unlimited 256
  rw [hsource] at hparse hopen hnesting hasked hfails
  have hlt : maxDepth < 256 + 1 := by decide
  exact ⟨hparse, hasked, hlt.trans_eq hopen.symm, hlt.trans_eq hnesting.symm, hfails⟩

end Traces

end Innermost
