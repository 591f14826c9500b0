import Mathlib.Tactic
import Innermost.Reduction

/-!
Questions to an evaluator, and what comes of their answers.

* `Consultation.andThen` puts computations that ask questions one after the other. It
  obeys the laws of a sequence (`pure_andThen`, `andThen_assoc`).
* `FailsAt`: the evaluator is asked about a text, and what it answers cannot be used. It
  is an error, or is no atom; every other answer is accepted
  (`acceptAnswer_eq_ok_iff`, `acceptAnswer_eq_error_iff`).
* `Consultation.StopsAtFailure`: the first answer that cannot be used ends the questions.
-/

namespace Innermost

/-! ### Questions in sequence -/

namespace Consultation

variable {ε α β γ : Type}

/-- Goes on from a result with further questions; an error ends the questions. -/
def andThen (c : Consultation (Except ε α)) (next : α → Consultation (Except ε β)) :
    Consultation (Except ε β) :=
  match c.answer with
  | .ok a => ⟨c.asked ++ (next a).asked, (next a).answer⟩
  | .error d => ⟨c.asked, .error d⟩

lemma andThen_of_ok {c : Consultation (Except ε α)} {a : α} (h : c.answer = .ok a)
    (next : α → Consultation (Except ε β)) :
    c.andThen next = ⟨c.asked ++ (next a).asked, (next a).answer⟩ := by
  simp only [andThen, h]

lemma andThen_of_error {c : Consultation (Except ε α)} {d : ε} (h : c.answer = .error d)
    (next : α → Consultation (Except ε β)) : c.andThen next = ⟨c.asked, .error d⟩ := by
  simp only [andThen, h]

@[simp] lemma pure_andThen (a : α) (next : α → Consultation (Except ε β)) :
    (pure (.ok a)).andThen next = next a := by
  simp [andThen, pure]

lemma andThen_assoc (c : Consultation (Except ε α)) (g : α → Consultation (Except ε β))
    (h : β → Consultation (Except ε γ)) :
    (c.andThen g).andThen h = c.andThen fun a => (g a).andThen h := by
  cases hc : c.answer with
  | error d => simp [andThen, hc]
  | ok a => cases hg : (g a).answer <;> simp [andThen, hc, hg]

/-- A result may be changed before it is used or in its use. -/
lemma map_andThen (c : Consultation (Except ε α)) (g : α → β)
    (next : β → Consultation (Except ε γ)) :
    (c.map (·.map g)).andThen next = c.andThen fun a => next (g a) := by
  cases hc : c.answer <;> simp [andThen, hc, Except.map]

lemma andThen_pure (c : Consultation (Except ε α)) (g : α → β) :
    (c.andThen fun a => pure (.ok (g a))) = c.map (·.map g) := by
  cases hc : c.answer <;> simp [andThen, pure, map, hc, Except.map]

end Consultation

/-! ### Answers -/

/-- What comes of a question about `text` whose answer cannot be used: the error that the
evaluator gives, as it is, or an answer that is no atom, of which the whole of `text` is
shown. -/
inductive FailsAt (f : Evaluator) (text : String) : Failure → Prop where
  | refused {d : Diagnostic} (h : f text = .error d) : FailsAt f text ⟨.group, text, d⟩
  | notAtomic {answer : String} (h : f text = .ok answer) (hatomic : isAtomic answer = false) :
      FailsAt f text
        ⟨.group, text, ⟨.reduction (.notAtomic answer), [⟨0, text.utf8ByteSize⟩]⟩⟩

section Answers

variable {f : Evaluator} {text value : String} {answer : Except Diagnostic String}
  {failure : Failure}

lemma acceptAnswer_eq_ok_iff :
    acceptAnswer text answer = .ok value ↔ answer = .ok value ∧ isAtomic value = true := by
  cases answer with
  | error d => simp [acceptAnswer]
  | ok answer =>
      rw [acceptAnswer]
      constructor
      · intro h
        split_ifs at h with hatomic
        cases h
        exact ⟨rfl, hatomic⟩
      · rintro ⟨h, hatomic⟩
        cases h
        rw [if_pos hatomic]

lemma acceptAnswer_eq_error_iff :
    acceptAnswer text (f text) = .error failure ↔ FailsAt f text failure := by
  constructor
  · intro h
    cases hf : f text with
    | error d =>
        rw [hf, acceptAnswer] at h
        cases h
        exact .refused hf
    | ok answer =>
        rw [hf, acceptAnswer] at h
        split_ifs at h with hatomic
        cases h
        exact .notAtomic hf (by simpa using hatomic)
  · intro h
    cases h with
    | refused hf =>
        rw [hf]
        rfl
    | notAtomic hf hatomic =>
        rw [hf, acceptAnswer, if_neg (by simp [hatomic])]
        rfl

/-- Such a failure is about the group. -/
lemma FailsAt.place_eq (h : FailsAt f text failure) : failure.place = .group := by
  cases h <;> rfl

/-- A failure of any other cause than an answer that is no atom is the evaluator's
own. -/
lemma FailsAt.eq_error (h : FailsAt f text failure)
    (hcause : ∀ answer, failure.diagnostic.cause ≠ .reduction (.notAtomic answer)) :
    f text = .error failure.diagnostic := by
  cases h with
  | refused h => exact h
  | notAtomic h hatomic => exact absurd rfl (hcause _)

end Answers

/-! ### The first failure -/

namespace Consultation

variable {α β : Type}

/-- The evaluator was asked about nothing after its first answer that cannot be used, and
this answer, if there was one, is the failure. -/
def StopsAtFailure (f : Evaluator) (c : Consultation (Except Failure α)) : Prop :=
  ∃ accepted, (∀ text ∈ accepted, ∃ value, f text = .ok value ∧ isAtomic value = true) ∧
    match c.answer with
    | .ok _ => c.asked = accepted
    | .error failure => ∃ text, c.asked = accepted ++ [text] ∧ FailsAt f text failure

lemma stopsAtFailure_pure (f : Evaluator) (a : α) : (pure (.ok a)).StopsAtFailure f :=
  ⟨[], by simp, rfl⟩

/-- Questions that stop at the first failure may follow each other. -/
lemma StopsAtFailure.andThen {f : Evaluator} {c : Consultation (Except Failure α)}
    {next : α → Consultation (Except Failure β)} (hc : c.StopsAtFailure f)
    (hnext : ∀ a, (next a).StopsAtFailure f) : (c.andThen next).StopsAtFailure f := by
  obtain ⟨accepted, hall, hc⟩ := hc
  cases ha : c.answer with
  | error failure =>
      rw [ha] at hc
      rw [andThen_of_error ha]
      exact ⟨accepted, hall, hc⟩
  | ok a =>
      rw [ha] at hc
      obtain ⟨accepted', hall', hnext⟩ := hnext a
      rw [andThen_of_ok ha]
      refine ⟨accepted ++ accepted', List.forall_mem_append.mpr ⟨hall, hall'⟩, ?_⟩
      cases hb : (next a).answer with
      | ok b =>
          rw [hb] at hnext
          simp only [hc, hnext]
      | error failure =>
          rw [hb] at hnext
          obtain ⟨text, hasked, hfailure⟩ := hnext
          exact ⟨text, by rw [hc, hasked, List.append_assoc], hfailure⟩

end Consultation

end Innermost
