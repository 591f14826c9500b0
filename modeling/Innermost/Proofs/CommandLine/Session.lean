import Innermost.Proofs.CommandLine.Batch

/-!
What a session does with its random words.

* `Replies`: what is replied to a line, by the kind of the line.
* `turns` is the record of a session, and all that is printed is read off it
  (`output_session`).
* `wordsAfter`: a line takes words from the supply exactly if it asks for a practice
  expression of a depth that makes sense, and then as many as that expression needs
  (`replies_turn`). So the practice expressions are a `Practice.series`, which knows of the
  words and of the depths and of nothing else (`filterMap_made_turns`).
* `session_randomness` puts this together for any lines without a line feed, such as those that
  are typed at a terminal (`replies_typed`), and compares two sessions.
-/

namespace Innermost

/-! ### Practice expressions in a series -/

namespace Practice

/-- Practice expressions of given depths, made one after another. -/
def series (words : Supply) : List Nat → List Expr
  | [] => []
  | depth :: depths => (expression depth words).1 :: series (expression depth words).2 depths

/-- The expressions that are made later do not matter to those before. -/
lemma series_take (words : Supply) (depths : List Nat) (n : Nat) :
    (series words depths).take n = series words (depths.take n) := by
  induction depths generalizing words n with
  | nil => simp [series]
  | cons depth depths ih =>
      cases n with
      | zero => rfl
      | succ n => rw [series, List.take_succ_cons, ih, List.take_succ_cons, series]

lemma getElem?_series_congr {words : Supply} {depths depths' : List Nat} {i : Nat}
    (h : depths.take (i + 1) = depths'.take (i + 1)) :
    (series words depths)[i]? = (series words depths')[i]? := by
  have key (depths : List Nat) :
      (series words depths)[i]? = (series words (depths.take (i + 1)))[i]? := by
    rw [← series_take, List.getElem?_take_of_lt (Nat.lt_succ_self i)]
  rw [key, h, ← key]

end Practice

/-! ### Kinds of lines -/

/-- The depth that stands behind `:random`, or that is meant if none does. -/
def depthBehind (cs : List Char) : Except CountFault Nat :=
  let text := trim (String.ofList cs)
  if text.isEmpty then .ok defaultDepth else readCount text

/-- The depth of the practice expression that a line asks for, if it asks for one and the depth
makes sense. -/
def practiceDepth? (line : String) : Option Nat :=
  (afterRandom (trim line).toList).bind fun cs => (depthBehind cs).toOption

/-- What is replied to a line, and the practice expression that is made for it, if one is.

* Nothing is replied to a blank line.
* A line that does not begin with `:random` is answered as it is in a batch.
* A practice expression is shown and answered, whatever it is.
* Of a depth that makes no sense one error is reported. -/
inductive Replies (o : Options) (line : String) : Option Expr → Output → Prop where
  | blank (h : isBlankLine line = true) : Replies o line none {}
  | expression (hblank : isBlankLine line = false) (h : ¬ ":random".toList <+: (trim line).toList) :
      Replies o line none (batch o line).output
  | practice {cs : List Char} {depth : Nat} (h : ":random".toList ++ cs = (trim line).toList)
      (hdepth : depthBehind cs = .ok depth) (e : Expr) :
      Replies o line (some e) (.print (e.text ++ "\n") ++ answer o e.text)
  | invalidDepth {cs : List Char} {fault : CountFault}
      (h : ":random".toList ++ cs = (trim line).toList) (hdepth : depthBehind cs = .error fault) :
      Replies o line none
        (.report ("invalid depth " ++ quoted (trim (String.ofList cs)) ++ ": " ++ fault.message))

section Lines

variable {o : Options} {line : String}

lemma Request.ofLine_of_blank (h : isBlankLine line = true) : ofLine line = .none := by
  rw [ofLine, isEmpty_trim, if_pos h]

lemma Request.ofLine_of_not_command (hblank : isBlankLine line = false)
    (h : afterRandom (trim line).toList = Option.none) : ofLine line = .expression line := by
  simp [ofLine, isEmpty_trim, hblank, h]

lemma isEmpty_trim_of_command {cs : List Char} (h : afterRandom (trim line).toList = some cs) :
    (trim line).isEmpty = false := by
  rw [Bool.eq_false_iff, ne_eq, String.isEmpty_iff]
  intro hempty
  rw [hempty] at h
  cases h

lemma Request.ofLine_of_depth {cs : List Char} {depth : Nat}
    (h : afterRandom (trim line).toList = some cs) (hdepth : depthBehind cs = .ok depth) :
    ofLine line = .practice depth := by
  simp only [depthBehind] at hdepth
  split_ifs at hdepth with hempty
  · cases hdepth
    simp [ofLine, isEmpty_trim_of_command h, h, hempty]
  · simp [ofLine, isEmpty_trim_of_command h, h, hempty, hdepth]

lemma Request.ofLine_of_fault {cs : List Char} {fault : CountFault}
    (h : afterRandom (trim line).toList = some cs) (hfault : depthBehind cs = .error fault) :
    ofLine line = .invalidDepth (trim (String.ofList cs)) fault := by
  simp only [depthBehind] at hfault
  split_ifs at hfault with hempty
  simp [ofLine, isEmpty_trim_of_command h, h, hempty, hfault]

lemma practiceDepth?_of_blank (h : isBlankLine line = true) : practiceDepth? line = none := by
  rw [← isEmpty_trim, String.isEmpty_iff] at h
  rw [practiceDepth?, h]
  rfl

end Lines

/-! ### One turn -/

/-- What passes in a session for one line. -/
structure Turn where
  /-- The line that is typed. -/
  line : String
  /-- The practice expression that is made for it, if one is. -/
  made : Option Expr
  /-- What is printed and reported in reply. -/
  reply : Output

/-- The turn of a line. -/
def turn (o : Options) (words : Supply) (line : String) : Turn where
  line := line
  made := (practiceDepth? line).map fun depth => (Practice.expression depth words).1
  reply := ((Request.ofLine line).respond o words).1

/-- The words that are left after a line. -/
def wordsAfter (words : Supply) (line : String) : Supply :=
  match practiceDepth? line with
  | some depth => (Practice.expression depth words).2
  | none => words

section Lines

variable {line : String}

/-- A reply, and what it does to the random words: nothing, unless it is a practice
expression. -/
lemma replies_turn (o : Options) (words : Supply) (hline : '\n' ∉ line.toList) :
    Replies o line (turn o words line).made (turn o words line).reply ∧
      ((Request.ofLine line).respond o words).2 = wordsAfter words line := by
  rw [turn, wordsAfter]
  by_cases hblank : isBlankLine line = true
  · rw [Request.ofLine_of_blank hblank, practiceDepth?_of_blank hblank]
    exact ⟨.blank hblank, rfl⟩
  · rw [Bool.not_eq_true] at hblank
    cases hcommand : afterRandom (trim line).toList with
    | none =>
        have hprefix := afterRandom_eq_none_iff.mp hcommand
        rw [practiceDepth?, hcommand, Request.ofLine_of_not_command hblank hcommand]
        have hreplies := Replies.expression (o := o) hblank hprefix
        rw [batch_line o hline hblank] at hreplies
        exact ⟨hreplies, rfl⟩
    | some cs =>
        have hprefix := afterRandom_eq_some_iff.mp hcommand
        rw [practiceDepth?, hcommand, Option.bind_some]
        cases hdepth : depthBehind cs with
        | ok depth =>
            rw [Request.ofLine_of_depth hcommand hdepth]
            exact ⟨.practice hprefix hdepth _, rfl⟩
        | error fault =>
            rw [Request.ofLine_of_fault hcommand hdepth]
            exact ⟨.invalidDepth hprefix hdepth, rfl⟩

end Lines

/-! ### A whole session -/

/-- The turns over lines, each with the words that those before it have left. -/
def turns (o : Options) (words : Supply) : List String → List Turn
  | [] => []
  | line :: rest => turn o words line :: turns o (wordsAfter words line) rest

/-- The lines that a session answers: those before the end of input, or before one that
cannot be read. -/
def readableLines : List TypedLine → List String
  | .text line :: rest => line :: readableLines rest
  | _ => []

section Sessions

variable (o : Options) (words : Supply)

lemma mem_of_mem_readableLines {typed : List TypedLine} {line : String}
    (h : line ∈ readableLines typed) : .text line ∈ typed := by
  fun_induction readableLines typed with
  | case1 line' rest ih =>
      obtain rfl | h := List.mem_cons.mp h
      · exact List.mem_cons_self
      · exact .tail _ (ih h)
  | case2 typed _ => cases h

lemma map_line_turns (lines : List String) :
    (turns o words lines).map Turn.line = lines := by
  induction lines generalizing words with
  | nil => rfl
  | cons line lines ih => exact congrArg (line :: ·) (ih _)

lemma replies_turns {lines : List String} (hlines : ∀ line ∈ lines, '\n' ∉ line.toList) :
    ∀ x ∈ turns o words lines, Replies o x.line x.made x.reply := by
  induction lines generalizing words with
  | nil => exact List.forall_mem_nil _
  | cons line lines ih =>
      obtain ⟨hline, hlines⟩ := List.forall_mem_cons.mp hlines
      exact List.forall_mem_cons.mpr ⟨(replies_turn o words hline).1, ih _ hlines⟩

/-- **Every line that is typed at a terminal is replied to by its kind.** -/
theorem replies_typed (input : ByteArray) :
    ∀ x ∈ turns o words (readableLines (typedLines input)), Replies o x.line x.made x.reply :=
  replies_turns o words fun _ hline => newline_not_mem_of_typed (mem_of_mem_readableLines hline)

/-- The practice expressions of a session are a series of their depths. -/
lemma filterMap_made_turns (lines : List String) :
    (turns o words lines).filterMap Turn.made =
      Practice.series words (lines.filterMap practiceDepth?) := by
  induction lines generalizing words with
  | nil => rfl
  | cons line lines ih =>
      rw [turns, List.filterMap_cons, List.filterMap_cons, ih]
      cases h : practiceDepth? line <;> simp [turn, wordsAfter, h, Practice.series]

/-- A session prompts for each line and replies to it, until it prompts in vain. -/
lemma output_session {typed : List TypedLine}
    (htyped : ∀ line ∈ readableLines typed, '\n' ∉ line.toList) :
    (session o words typed).output =
      .concat ((turns o words (readableLines typed)).map (.print prompt ++ ·.reply)) ++
        .print prompt := by
  fun_induction session o words typed with
  | case1 words => exact (Output.empty_append _).symm
  | case2 words _ => exact (Output.empty_append _).symm
  | case3 words _ => exact (Output.empty_append _).symm
  | case4 words line rest output words' hreply after ih =>
      obtain ⟨hline, hrest⟩ := List.forall_mem_cons.mp htyped
      obtain rfl : words' = wordsAfter words line := by
        rw [← (replies_turn o words hline).2, hreply]
      have houtput : (turn o words line).reply = output := by rw [turn, hreply]
      rw [readableLines, turns, List.map_cons, Output.concat_cons, houtput,
        Output.append_assoc _ _ (.print prompt), ← ih hrest]

/-- A session succeeds exactly if it is led to the end of input. -/
lemma status_session_eq_zero_iff {typed : List TypedLine} :
    (session o words typed).status = 0 ↔ (readableLines typed).map .text = typed := by
  fun_induction session o words typed with
  | case1 words => exact iff_of_true rfl rfl
  | case2 words _ => exact iff_of_false (by decide) (by simp [readableLines])
  | case3 words _ => exact iff_of_false (by decide) (by simp [readableLines])
  | case4 words line rest output words' hreply after ih =>
      simpa [readableLines] using ih

end Sessions

/-- **In a session only practice expressions use random words.** A session over lines without
line feeds

* prompts for each line and replies to it, until it prompts in vain;
* succeeds exactly if it is led to the end of input, however many of its lines fail;
* replies to each line by its kind, and as a batch does unless the line is blank or begins
  with `:random`;
* makes its practice expressions one after another from its words, so that they are the series
  of the depths that are asked for.

Hence an expression of one session is that of any other session with the same words in which
the same depths were asked for up to it, whatever else is typed in between. -/
theorem session_randomness :
    (∀ (o : Options) (words : Supply) (typed : List TypedLine),
      (∀ line ∈ readableLines typed, '\n' ∉ line.toList) →
      let talk := turns o words (readableLines typed)
      let outcome := session o words typed
      outcome.output = .concat (talk.map (.print prompt ++ ·.reply)) ++ .print prompt ∧
        (outcome.status = 0 ↔ (readableLines typed).map .text = typed) ∧
        talk.map Turn.line = readableLines typed ∧
        (∀ x ∈ talk, Replies o x.line x.made x.reply) ∧
        talk.filterMap Turn.made =
          Practice.series words ((readableLines typed).filterMap practiceDepth?)) ∧
      ∀ (o o' : Options) (words : Supply) (read read' : List String) (i : Nat),
        (read.filterMap practiceDepth?).take (i + 1) =
            (read'.filterMap practiceDepth?).take (i + 1) →
          ((turns o words read).filterMap Turn.made)[i]? =
            ((turns o' words read').filterMap Turn.made)[i]? := by
  constructor
  · intro o words typed htyped talk outcome
    exact ⟨output_session o words htyped, status_session_eq_zero_iff o words,
      map_line_turns o words _, replies_turns o words htyped,
      filterMap_made_turns o words _⟩
  · intro o o' words read read' i h
    rw [filterMap_made_turns, filterMap_made_turns]
    exact Practice.getElem?_series_congr h

/-- Between two commands stand lines of every other kind. The session succeeds, though three of
them fail, makes expressions of these two depths, and the second is that of another session. -/
theorem session_randomness_interleaved :
    let read := [":random 3", "(1 + 2)", " :random"]
    let read' := ["", "(1 / 0)", ":random -1", ":random 3 ", "\u2003", ":randomly", ":random+2"]
    let words := Supply.ofSeed 1
    read.filterMap practiceDepth? = [3, 2] ∧ read'.filterMap practiceDepth? = [3, 2] ∧
      (∀ line ∈ readableLines (read'.map .text), '\n' ∉ line.toList) ∧
      (session {} words (read'.map .text)).status = 0 ∧
      (turns {} words read').filterMap Turn.made = Practice.series words [3, 2] ∧
      ((turns {} words read).filterMap Turn.made)[1]? =
        ((turns { json := true } words read').filterMap Turn.made)[1]? := by
  intro read read' words
  have hread : read.filterMap practiceDepth? = [3, 2] := by decide +kernel
  have hread' : read'.filterMap practiceDepth? = [3, 2] := by decide +kernel
  have hlines : readableLines (read'.map .text) = read' := rfl
  have hfeed : ∀ line ∈ readableLines (read'.map .text), '\n' ∉ line.toList := by decide
  obtain ⟨-, hstatus, -, -, hmade⟩ := session_randomness.1 {} words _ hfeed
  rw [hlines, hread'] at hmade
  refine ⟨hread, hread', hfeed, hstatus.mpr (congrArg _ hlines), hmade,
    session_randomness.2 _ _ _ read read' 1 ?_⟩
  rw [hread, hread']

end Innermost
