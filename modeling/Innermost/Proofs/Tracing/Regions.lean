import Innermost.Proofs.Literal.Regions
import Innermost.Proofs.Tracing.Failures

/-!
Diagnostics point into their own text.

* `Scan.liesIn_goOn`: the scan that finds the fault of a text remembers opening parentheses
  of that text and its own place in it, and nothing else. So the faults of texts that are
  not read point into them (`Expr.pointsInto_of_parse`).
* `pointsInto_of_traceRun` says so of the failures of a trace, each of which comes with its
  text.
* `diagnostics_pointInto` puts them together with those of texts that have no value
  (`pointsInto_of_evaluate`).
-/

namespace Innermost

/-! ### Texts that are not read -/

namespace Scan

/-- The regions that an ending tells of lie in the text, and behind an expression that is
complete the text goes on with what is left. -/
def Ending.LiesIn (text : String) : Ending → Prop
  | blank => True
  | stray closing => closing.LiesIn text
  | tooDeep opening => opening.LiesIn text
  | unclosed opening => opening.LiesIn text
  | complete place rest => ContinuesAt text place rest

section Scans

variable {text : String} {stack : List Span} {place : Nat} {cs : List Char}

/-- A scan that stands in a text, inside groups of that text, comes to an end there. -/
lemma liesIn_goOn (h : ContinuesAt text place cs) (hstack : ∀ s ∈ stack, s.LiesIn text)
    (inAtom : Bool) : (goOn stack inAtom place cs).LiesIn text := by
  induction cs generalizing stack inAtom place with
  | nil =>
      cases stack with
      | nil => cases inAtom <;> simp [goOn, Ending.LiesIn, h]
      | cons opening outer => exact hstack opening List.mem_cons_self
  | cons c cs ih =>
      have hc := h.liesIn_cons
      have hnext {stack : List Span} (hstack : ∀ s ∈ stack, s.LiesIn text) (inAtom : Bool) :
          (goOn stack inAtom (place + c.utf8Size) cs).LiesIn text := ih h.cons hstack inAtom
      simp only [goOn]
      split_ifs
      · exact hnext hstack true
      · exact h
      · exact hnext hstack false
      · exact hnext (List.forall_mem_cons.mpr ⟨hc, hstack⟩) false
      · exact hc
      · rcases stack with _ | ⟨_, _ | ⟨opening, outer⟩⟩
        · exact hc
        · exact h.cons
        · exact hnext (fun s hs => hstack s (.tail _ hs)) false
      · exact hnext hstack true

/-- What is wrong with a text is shown in it. -/
lemma Ending.LiesIn.pointsInto {ending : Ending} {d : Diagnostic} (h : ending.LiesIn text)
    (hd : ending.fault text.utf8ByteSize = some d) : d.PointsInto text := by
  cases ending with
  | blank =>
      cases hd
      exact Diagnostic.pointsInto_singleton (Span.liesIn_end text) rfl
  | stray closing | tooDeep opening =>
      cases hd
      exact Diagnostic.pointsInto_singleton h rfl
  | unclosed opening =>
      cases hd
      have hopening : opening.LiesIn text := h
      exact ⟨by simpa using ⟨hopening, Span.liesIn_end text⟩,
        by simpa [Span.empty] using hopening.stop_le_size, rfl⟩
  | complete place rest =>
      rw [fault] at hd
      split_ifs at hd
      cases hd
      rw [LiesIn, ← List.takeWhile_append_dropWhile (p := isBlank) (l := rest)] at h
      exact Diagnostic.pointsInto_singleton h.append.liesIn_rest rfl

end Scans

end Scan

/-- The fault for which a text is not read points into the text. -/
lemma Expr.pointsInto_of_parse {text : String} {d : Diagnostic} (h : parse text = .error d) :
    d.PointsInto text := by
  have hending : (Scan.ofText text).LiesIn text :=
    Scan.liesIn_goOn (continuesAt_start text) (by simp) false
  exact hending.pointsInto (parse_eq_error_iff_fault.mp h)

/-! ### Texts without a value -/

/-- The literal evaluator refuses a text that has no value. -/
lemma evaluate_of_literal_eq_error {text : String} {d : Diagnostic}
    (h : Evaluator.literal text = .error d) : evaluate text = .error d := by
  rw [Evaluator.literal] at h
  cases heval : evaluate text with
  | ok v =>
      rw [heval] at h
      cases h
  | error d' =>
      rw [heval] at h
      cases h
      rfl

/-! ### Traces -/

section Traces

variable {ctx : Context} {source text : String} {failure : Failure}

/-- A trace fails of what its run failed of. -/
lemma trace_eq_error_iff :
    trace ctx source = .error failure ↔ (traceRun ctx source).outcome = .error failure := by
  rw [trace, Run.trace]
  cases (traceRun ctx source).outcome with
  | ok answer => exact iff_of_false (by rintro ⟨⟩) (by rintro ⟨⟩)
  | error failure' =>
      exact ⟨fun h => congrArg _ (Except.error.inj h), fun h => congrArg _ (Except.error.inj h)⟩

/-- What comes of a question to the literal evaluator is told of the group that was
evaluated. -/
lemma FailsAt.pointsInto (h : FailsAt .literal text failure) :
    failure.source = text ∧ failure.diagnostic.PointsInto text := by
  cases h with
  | refused h => exact ⟨rfl, pointsInto_of_evaluate (evaluate_of_literal_eq_error h)⟩
  | notAtomic _ _ => exact ⟨rfl, Diagnostic.pointsInto_singleton (Span.liesIn_whole text) rfl⟩

/-- A failure of a trace points into the text that it comes with: the whole input, or the
group that was evaluated last. -/
lemma pointsInto_of_traceRun (hctx : ctx.evaluator = .literal)
    (h : (traceRun ctx source).outcome = .error failure) :
    failure.diagnostic.PointsInto failure.source ∧
      (failure.place = .input ∧ failure.source = source ∨
        failure.place = .group ∧ (traceRun ctx source).asked.getLast? = some failure.source) := by
  obtain ⟨d, hparse, rfl, -⟩ | ⟨text, hlast, hfails⟩ | rfl := failure_traceRun h
  · exact ⟨Expr.pointsInto_of_parse hparse, .inl ⟨rfl, rfl⟩⟩
  · rw [hctx] at hfails
    obtain ⟨rfl, hpoints⟩ := hfails.pointsInto
    exact ⟨hpoints, .inr ⟨hfails.place_eq, hlast⟩⟩
  · exact ⟨Diagnostic.pointsInto_singleton (Span.liesIn_whole source) rfl, .inl ⟨rfl, rfl⟩⟩

end Traces

/-- **Diagnostics point into their own text.** The regions of a diagnostic lie in the text
that it is about, cut no character of it and stand one behind another, and there are as
many of them as labels, so that every label is shown. This holds

* of every text that is not read, and of every text that has no value;
* of every failure of a trace with the literal evaluator, for the text that the failure
  comes with: the whole input, or the group that was evaluated last. -/
theorem diagnostics_pointInto :
    (∀ (text : String) (d : Diagnostic), Expr.parse text = .error d → d.PointsInto text) ∧
      (∀ (text : String) (d : Diagnostic), evaluate text = .error d → d.PointsInto text) ∧
      (∀ (marker : Marker) (maxSteps : Nat) (source : String) (failure : Failure),
        trace ⟨.literal, marker, maxSteps⟩ source = .error failure →
        failure.diagnostic.PointsInto failure.source ∧
          (failure.place = .input ∧ failure.source = source ∨
            failure.place = .group ∧
              (traceRun ⟨.literal, marker, maxSteps⟩ source).asked.getLast? =
                some failure.source)) ∧
      ∀ (text : String) (d : Diagnostic), d.PointsInto text →
        d.labels = d.cause.wording.labels ∧ d.labels.length = d.spans.length := by
  refine ⟨fun _ _ => Expr.pointsInto_of_parse, fun _ _ => pointsInto_of_evaluate,
    fun _ _ _ _ h => pointsInto_of_traceRun rfl (trace_eq_error_iff.mp h), fun _ _ h => ?_⟩
  exact ⟨h.labels_eq, by rw [h.labels_eq, h.length_spans]⟩

/-- Characters of several bytes stand before the group that is never closed, and in the
group whose trace fails. -/
theorem diagnostics_pointInto_wide :
    let unclosed : Diagnostic := ⟨.read .missingClosing, [⟨5, 6⟩, ⟨8, 8⟩]⟩
    let misplaced : Diagnostic :=
      ⟨.literal (.unexpectedToken Evaluation.operandStart .symbol), [⟨5, 8⟩]⟩
    (Expr.parse "(€ (ä" = .error unclosed ∧ unclosed.PointsInto "(€ (ä") ∧
      (trace {} "(1 + (2 * €))" = .error (.inGroup "(2 * €)" misplaced) ∧
        misplaced.PointsInto "(2 * €)") := by
  intro unclosed misplaced
  have hparse : Expr.parse "(€ (ä" = .error unclosed := by decide +kernel
  have htrace : trace {} "(1 + (2 * €))" = .error (.inGroup "(2 * €)" misplaced) := by
    decide +kernel
  obtain ⟨hread, -, htraced, -⟩ := diagnostics_pointInto
  exact ⟨⟨hparse, hread _ _ hparse⟩, htrace, (htraced .brackets 1024 _ _ htrace).1⟩

end Innermost
