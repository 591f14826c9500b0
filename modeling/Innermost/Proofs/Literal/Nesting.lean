import Innermost.Proofs.Literal.LongestMatch
import Innermost.Proofs.Literal.Substitution

/-!
How far the evaluator goes into parentheses.

* `mostOpen` counts the parentheses of lexemes that are open at once. Where none is closed
  before the end, these are all that are opened (`mostOpen_append_closing`), and what is taken
  up leaves no more open than there were (`Yields.mostOpen_le`).
* `openings_lexemes`: every `(` of a text is a lexeme of its own.
* `Evaluation.expressionNesting` and its like: the parentheses that the evaluator is inside of
  at once. They follow its calls, and count those that are made inside a parenthesis.
* `evaluationNesting_le`: these are no more than the text has open at once. There is no other
  limit to them (`le_evaluationNesting`): where they are not closed, that is what is found wrong,
  and not their number (`exists_evaluate_eq_unclosed`).
-/

namespace Innermost

/-! ### Parentheses that are open at once -/

/-- The most parentheses that are open at once in the lexemes, if there are `now` of them in
front of the first one. -/
def mostOpen : (now : Nat) → List Lexeme → Nat
  | now, [] => now
  | now, l :: ls =>
      match l.kind with
      | .opening => mostOpen (now + 1) ls
      | .closing => max now (mostOpen (now - 1) ls)
      | _ => mostOpen now ls

section MostOpen

variable {l : Lexeme} {ls : List Lexeme} {now : Nat}

lemma mostOpen_of_opening (h : l.kind = .opening) :
    mostOpen now (l :: ls) = mostOpen (now + 1) ls := by
  rw [mostOpen, h]

lemma mostOpen_of_closing (h : l.kind = .closing) :
    mostOpen now (l :: ls) = max now (mostOpen (now - 1) ls) := by
  rw [mostOpen, h]

lemma mostOpen_of_isPlain (h : l.IsPlain) : mostOpen now (l :: ls) = mostOpen now ls := by
  rw [mostOpen]
  split
  · rename_i hkind
    exact absurd hkind h.1
  · rename_i hkind
    exact absurd hkind h.2
  · rfl

lemma le_mostOpen (now : Nat) (ls : List Lexeme) : now ≤ mostOpen now ls := by
  induction ls generalizing now with
  | nil => exact le_rfl
  | cons l ls ih =>
      rw [mostOpen]
      split
      · exact (Nat.le_succ now).trans (ih (now + 1))
      · exact le_max_left _ _
      · exact ih now

/-- Where no parenthesis is closed before the end, all are open at once. -/
lemma mostOpen_append_closing (h : closings ls = 0) (now : Nat) :
    mostOpen now (ls ++ [.closing]) = now + openings ls := by
  induction ls generalizing now with
  | nil =>
      rw [List.nil_append, mostOpen_of_closing rfl]
      exact max_eq_left (Nat.sub_le now 1)
  | cons l ls ih =>
      rw [closings, List.countP_eq_zero, List.forall_mem_cons] at h
      have hclosing : l.kind ≠ .closing := by simpa using h.1
      have hls : closings ls = 0 := List.countP_eq_zero.mpr h.2
      rw [List.cons_append]
      by_cases hopening : l.kind = .opening
      · rw [mostOpen_of_opening hopening, ih hls]
        simp [openings, hopening]
        omega
      · rw [mostOpen_of_isPlain ⟨hopening, hclosing⟩, ih hls]
        simp [openings, hopening]

/-- A group whose children close no parenthesis has all that it opens open at once. -/
lemma mostOpen_bracketed (h : closings ls = 0) :
    mostOpen 0 (bracketed ls) = openings (bracketed ls) := by
  rw [bracketed, mostOpen_of_opening rfl, mostOpen_append_closing h, ← bracketed,
    openings_bracketed]
  omega

end MostOpen

/-- What is taken up leaves no more parentheses open than it had. -/
lemma Yields.mostOpen_le {s : Stage} {ls rest : List Lexeme} {v : Value} (h : Yields s ls v rest)
    (now : Nat) : mostOpen now rest ≤ mostOpen now ls := by
  induction h generalizing now with
  | truth hl | integer hl _ => rw [mostOpen_of_isPlain (by simp [Lexeme.IsPlain, hl])]
  | negative hl hm _ =>
      rw [mostOpen_of_isPlain (by simp [Lexeme.IsPlain, hl]),
        mostOpen_of_isPlain (by simp [Lexeme.IsPlain, hm])]
  | @parens l m ls us rest _ _ hl _ _ hm ihx ihv =>
      calc mostOpen now rest
          ≤ mostOpen (now + 1) (m :: rest) := by
            rw [mostOpen_of_closing hm]
            exact le_max_right _ _
        _ ≤ mostOpen (now + 1) us := ihv (now + 1)
        _ ≤ mostOpen (now + 1) ls := ihx (now + 1)
        _ = mostOpen now (l :: ls) := (mostOpen_of_opening hl).symm
  | not hl _ _ ih | neg hl _ _ ih =>
      rw [mostOpen_of_isPlain (by simp [Lexeme.IsPlain, hl])]
      exact ih now
  | stop => exact le_rfl
  | apply hl _ _ _ _ _ ihy ihz ihv =>
      rw [mostOpen_of_isPlain (by simp [Lexeme.IsPlain, hl])]
      exact (ihv now).trans ((ihz now).trans (ihy now))

/-! ### Every opening parenthesis is a lexeme -/

/-- No lexeme goes on with `(`. -/
lemma opening_notMem_lexemeTail (c : Char) (rest : List Char) : '(' ∉ lexemeTail c rest := by
  have htake {p : Char → Bool} (hp : p '(' = false) : '(' ∉ rest.takeWhile p := fun h =>
    absurd (List.mem_takeWhile_imp h) (by simp [hp])
  unfold lexemeTail
  split_ifs
  · exact htake (by decide)
  · exact htake (by decide)
  · exact htake (by decide)
  · cases rest with
    | nil => simp
    | cons d rest =>
        simp only
        split_ifs with hpair
        · rw [List.mem_singleton]
          rintro rfl
          simp [isOperatorPair] at hpair
        · simp

/-- A lexeme holds one `(` or none, and opens in the first case. -/
lemma count_lexeme (c : Char) (rest : List Char) :
    (c :: lexemeTail c rest).count '(' =
      if TokenKind.ofLexeme (c :: lexemeTail c rest) = .opening then 1 else 0 := by
  have htail := List.count_eq_zero.mpr (opening_notMem_lexemeTail c rest)
  by_cases hc : c = '('
  · subst hc
    have hnil : lexemeTail '(' rest = [] := by
      unfold lexemeTail
      cases rest <;> simp [isBlank, isNameStart, isOperatorPair]
    rw [hnil]
    rfl
  · have hkind : TokenKind.ofLexeme (c :: lexemeTail c rest) ≠ .opening := by
      intro h
      have hmatches := matches_lexemeTail c rest
      rw [h] at hmatches
      exact hc (List.cons.inj hmatches).1
    rw [List.count_cons_of_ne hc, htail, if_neg hkind]

/-- **The lexemes open as many parentheses as stand in the text.** -/
lemma openings_lexemes (cs : List Char) : openings (lexemes cs) = cs.count '(' := by
  have hcut (c : Char) (rest : List Char) : (c :: rest).count '(' =
      (c :: lexemeTail c rest).count '(' +
        (rest.drop (lexemeTail c rest).length).count '(' := by
    conv_lhs => rw [← lexemeTail_append_drop c rest]
    exact List.count_append
  fun_induction lexemes cs with
  | case1 => rfl
  | case2 c rest l ls hblank ih =>
      have hkind : TokenKind.ofLexeme (c :: lexemeTail c rest) = .blank := hblank
      rw [ih, hcut c rest, count_lexeme, hkind, if_neg (by simp), Nat.zero_add]
  | case3 c rest l ls hblank ih =>
      rw [hcut c rest, count_lexeme, ← ih, openings, List.countP_cons, Nat.add_comm]
      simp [l, Lexeme.ofChars, openings, ls]

/-! ### The parentheses that the evaluator is in -/

/-- The nesting of what is done with a result. After a failure nothing is done. -/
def nestingBehind {α : Type} (next : α → Nat) : Except Diagnostic α → Nat
  | .ok a => next a
  | .error _ => 0

lemma add_nestingBehind_le {α : Type} {c : Except Diagnostic α} {next : α → Nat} {now n : Nat}
    (hnow : now ≤ n) (h : ∀ a, c = .ok a → now + next a ≤ n) :
    now + nestingBehind next c ≤ n := by
  cases c with
  | ok a => exact h a rfl
  | error d => exact hnow

namespace Evaluation

mutual

/-- The most parentheses that `expression` is inside of at once. -/
def expressionNesting (stop : Nat) (ts : List Token) : Nat :=
  max (unaryNesting stop ts) <|
    nestingBehind (fun (x, us) =>
      have := us.2
      binaryNesting stop 0 x us.1) (unary stop ts)
termination_by 3 * ts.length + 2

/-- The most parentheses that `binary` is inside of at once. -/
def binaryNesting (stop floor : Nat) (x : Operand) (ts : List Token) : Nat :=
  match operator? floor ts with
  | none => 0
  | some (op, place, us) =>
      have := us.2
      max (unaryNesting stop us.1) <|
        nestingBehind (fun (y, vs) =>
          have := vs.2
          max (tighterNesting stop op.rank y vs.1) <|
            nestingBehind (fun (z, ws) =>
              have := ws.2
              nestingBehind (fun x => binaryNesting stop floor x ws.1) (op.apply place x z))
              (tighter stop op.rank y vs.1))
          (unary stop us.1)
termination_by 3 * ts.length

/-- The most parentheses that `tighter` is inside of at once. -/
def tighterNesting (stop rank : Nat) (y : Operand) (ts : List Token) : Nat :=
  match h : operator? (rank + 1) ts with
  | none => 0
  | some (next, _) =>
      max (binaryNesting stop next.rank y ts) <|
        nestingBehind (fun (z, us) =>
          have := us.2.2 (isSome_operator?_rank h)
          tighterNesting stop rank z us.1) (binary stop next.rank y ts)
termination_by 3 * ts.length + 1

/-- The most parentheses that `unary` is inside of at once. An expression in parentheses is
evaluated inside of one more. -/
def unaryNesting (stop : Nat) : List Token → Nat
  | [] => 0
  | t :: ts =>
      match t.kind with
      | .opening => 1 + expressionNesting stop ts
      | .bang => unaryNesting stop ts
      | .operator .sub =>
          match integer? ts with
          | some _ => 0
          | none => unaryNesting stop ts
      | _ => 0
termination_by ts => 3 * ts.length + 1

end

end Evaluation

/-- The most parentheses that the evaluator of a text is inside of at once. -/
def evaluationNesting (text : String) : Nat :=
  Evaluation.expressionNesting text.utf8ByteSize (tokens text)

namespace Evaluation

variable {stop now : Nat} {t : Token} {ts : List Token}

lemma unaryNesting_of_opening (ht : t.kind = .opening) :
    unaryNesting stop (t :: ts) = 1 + expressionNesting stop ts := by
  rw [unaryNesting]
  simp only [ht]

/-- A minus sign that is not part of a literal stands before an operand. -/
lemma unaryNesting_of_minus (ht : t.kind = .operator .sub) (hts : integer? ts = none) :
    unaryNesting stop (t :: ts) = unaryNesting stop ts := by
  conv_lhs => rw [unaryNesting]
  simp only [ht, hts]

lemma unaryNesting_le_expressionNesting : unaryNesting stop ts ≤ expressionNesting stop ts := by
  rw [expressionNesting]
  exact le_max_left _ _

/-- The evaluator goes into parentheses that are opened one behind another. -/
lemma le_unaryNesting {k : Nat} {ls : List Lexeme}
    (hts : ts.map Token.bare = List.replicate k .opening ++ ls) : k ≤ unaryNesting stop ts := by
  induction k generalizing ts with
  | zero => exact Nat.zero_le _
  | succ k ih =>
      rw [List.replicate_succ, List.cons_append] at hts
      obtain ⟨t, us, rfl, ht, hus⟩ := List.map_eq_cons_iff.mp hts
      rw [unaryNesting_of_opening (congrArg Lexeme.kind ht), Nat.add_comm]
      exact Nat.add_le_add_left ((ih hus).trans unaryNesting_le_expressionNesting) 1

/-- What is done with what is taken up comes behind tokens that leave no more parentheses open. -/
lemma add_max_nestingBehind_le {A : List Token → Prop} {s : Stage}
    {c : Except Diagnostic (Operand × { us : List Token // A us })}
    {next : Operand × { us : List Token // A us } → Nat} {k : Nat} (hc : Sound s ts (bare c))
    (hk : now + k ≤ mostOpen now (ts.map Token.bare))
    (hnext : ∀ y us, now + next (y, us) ≤ mostOpen now (us.1.map Token.bare)) :
    now + max k (nestingBehind next c) ≤ mostOpen now (ts.map Token.bare) := by
  rw [← Nat.add_max_add_left]
  refine max_le hk (add_nestingBehind_le (le_mostOpen _ _) ?_)
  rintro ⟨y, us⟩ rfl
  calc now + next (y, us)
      ≤ mostOpen now (us.1.map Token.bare) := hnext y us
    _ ≤ mostOpen now (ts.map Token.bare) := (hc y us.1 rfl).mostOpen_le now

/-- A token that is neither parenthesis opens none. -/
lemma le_mostOpen_cons {n : Nat} (hopening : t.kind ≠ .opening) (hclosing : t.kind ≠ .closing)
    (h : n ≤ mostOpen now (ts.map Token.bare)) : n ≤ mostOpen now ((t :: ts).map Token.bare) := by
  rwa [List.map_cons, mostOpen_of_isPlain ⟨hopening, hclosing⟩]

/-- **The evaluator is inside of no more parentheses than are open at once**, one case for each
of its calls. -/
theorem nestsWithin (stop : Nat) :
    (∀ ts now, now + expressionNesting stop ts ≤ mostOpen now (ts.map Token.bare)) ∧
    (∀ floor x ts now, now + binaryNesting stop floor x ts ≤ mostOpen now (ts.map Token.bare)) ∧
    (∀ rank y ts now, now + tighterNesting stop rank y ts ≤ mostOpen now (ts.map Token.bare)) ∧
    ∀ ts now, now + unaryNesting stop ts ≤ mostOpen now (ts.map Token.bare) := by
  obtain ⟨hoperand, hclimb⟩ := sound stop
  refine expressionNesting.mutual_induct
    (fun ts => ∀ now, now + expressionNesting stop ts ≤ mostOpen now (ts.map Token.bare))
    (fun floor x ts => ∀ now,
      now + binaryNesting stop floor x ts ≤ mostOpen now (ts.map Token.bare))
    (fun rank y ts => ∀ now,
      now + tighterNesting stop rank y ts ≤ mostOpen now (ts.map Token.bare))
    (fun ts => ∀ now, now + unaryNesting stop ts ≤ mostOpen now (ts.map Token.bare))
    ?expression ?rests ?operator ?loose ?tight ?ended ?opening ?bang ?literal ?minus ?other
  case expression =>
      intro ts ihx ihv now
      rw [expressionNesting]
      exact add_max_nestingBehind_le (hoperand ts) (ihx now) fun x us => ihv x us now
  case rests =>
      intro floor x ts h now
      rw [binaryNesting, h]
      exact le_mostOpen now _
  case operator =>
      intro floor x ts op place us h _ ihy ihz ihv now
      obtain ⟨t, hts, ht, -⟩ := exists_cons_of_operator? h
      have hopen : ts.map Token.bare = t.bare :: us.1.map Token.bare :=
        congrArg (List.map Token.bare) hts
      have hplain : t.bare.IsPlain := by simp [Lexeme.IsPlain, Token.bare, ht]
      rw [binaryNesting, h, hopen, mostOpen_of_isPlain hplain]
      refine add_max_nestingBehind_le (hoperand us.1) (ihy now) fun y vs => ?_
      refine add_max_nestingBehind_le (bare_tighter ▸ hclimb _ y vs.1) (ihz y vs now) fun z ws => ?_
      exact add_nestingBehind_le (le_mostOpen _ _) fun x' _ => ihv vs ws x' now
  case loose =>
      intro rank y ts h now
      rw [tighterNesting]
      split
      · exact le_mostOpen now _
      · rename_i hsome
        cases h.symm.trans hsome
  case tight =>
      intro rank y ts next found h ihy ihz now
      rw [tighterNesting]
      split
      · rename_i hnone
        cases h.symm.trans hnone
      · rename_i hsome
        cases h.symm.trans hsome
        exact add_max_nestingBehind_le (hclimb _ y ts) (ihy now) fun z us => ihz z us now
  case ended =>
      intro now
      rw [unaryNesting]
      exact le_mostOpen now _
  case opening =>
      intro t ts ht ih now
      rw [unaryNesting_of_opening ht, List.map_cons,
        mostOpen_of_opening (l := t.bare) ht, ← Nat.add_assoc]
      exact ih (now + 1)
  case bang =>
      intro t ts ht ih now
      rw [unaryNesting]
      simp only [ht]
      exact le_mostOpen_cons (by simp [ht]) (by simp [ht]) (ih now)
  case literal =>
      intro t ts ht u hu now
      rw [unaryNesting]
      simp only [ht, hu]
      exact le_mostOpen now _
  case minus =>
      intro t ts ht hts ih now
      rw [unaryNesting_of_minus ht hts]
      exact le_mostOpen_cons (by simp [ht]) (by simp [ht]) (ih now)
  case other =>
      intro t ts hopening hbang hminus now
      rw [unaryNesting]
      split
      · exact absurd ‹_› hopening
      · exact absurd ‹_› hbang
      · exact absurd ‹_› hminus
      · exact le_mostOpen now _

end Evaluation

/-- **The evaluator of a text is inside of no more parentheses than the text has open at once.** -/
theorem evaluationNesting_le (text : String) :
    evaluationNesting text ≤ mostOpen 0 ((tokens text).map Token.bare) := by
  rw [← Nat.zero_add (evaluationNesting text)]
  exact (Evaluation.nestsWithin text.utf8ByteSize).1 (tokens text) 0

/-- Behind `(` and a minus sign it goes into all the parentheses that stand there. -/
lemma le_evaluationNesting {text : String} {k : Nat} {ls : List Lexeme}
    (h : (tokens text).map Token.bare =
      .opening :: ⟨.operator .sub, "-"⟩ :: (List.replicate k .opening ++ ls)) :
    k + 1 ≤ evaluationNesting text := by
  obtain ⟨t, ts, hts, ht, hts'⟩ := List.map_eq_cons_iff.mp h
  obtain ⟨u, us, rfl, hu, hus⟩ := List.map_eq_cons_iff.mp hts'
  rw [evaluationNesting, hts]
  refine le_trans ?_ Evaluation.unaryNesting_le_expressionNesting
  rw [Evaluation.unaryNesting_of_opening (congrArg Lexeme.kind ht), Nat.add_comm]
  refine Nat.add_le_add_left (le_trans ?_ Evaluation.unaryNesting_le_expressionNesting) 1
  cases k with
  | zero => exact Nat.zero_le _
  | succ k =>
      have hnone : Evaluation.integer? us = none := by
        obtain ⟨v, vs, rfl, hv, -⟩ := List.map_eq_cons_iff.mp hus
        have hkind : v.kind = .opening := congrArg Lexeme.kind hv
        simp [Evaluation.integer?, hkind]
      rw [Evaluation.unaryNesting_of_minus (congrArg Lexeme.kind hu) hnone]
      exact Evaluation.le_unaryNesting hus

/-! ### Parentheses that are not closed -/

/-- The fault of an integer where `)` has to stand. -/
def unclosedAt (place : Span) : Diagnostic :=
  (LiteralFault.unexpectedToken [.closing] .integer).at [place]

section Unclosed

variable {stop k : Nat} {t : Token} {ts : List Token} {ls rest : List Lexeme} {m : Lexeme}
  {v : Value}

namespace Evaluation

/-- What is wrong behind a parenthesis is found from inside of it. -/
lemma operand_of_opening_of_error {d : Diagnostic} (ht : t.kind = .opening)
    (h : operand stop ts = .error d) : operand stop (t :: ts) = .error d := by
  rw [operand_of_opening ht, h]
  rfl

/-- An operand in a parenthesis with an integer behind it is not closed. -/
lemma exists_operand_eq_unclosed (hls : Yields .operand ls v (m :: rest)) (hm : m.kind = .integer)
    (hts : ts.map Token.bare = .opening :: ls) :
    ∃ place, operand stop ts = .error (unclosedAt place) := by
  obtain ⟨t, us, rfl, ht, hus⟩ := List.map_eq_cons_iff.mp hts
  obtain ⟨x, vs, hx, -, hvs⟩ := finds_of_yields stop hls hus
  obtain ⟨u, vs, rfl, hu, -⟩ := List.map_eq_cons_iff.mp hvs
  have hkind : u.kind = .integer := (congrArg Lexeme.kind hu).trans hm
  have hrests : Rests 0 ((u :: vs).map Token.bare) := rests_cons (by simp [Token.bare, hkind]) 0 _
  refine ⟨u.span, ?_⟩
  rw [operand_of_opening (congrArg Lexeme.kind ht), hx]
  simp only [bind, Except.bind]
  rw [climb_of_rests hrests]
  simp only [close, hkind, reduceCtorEq, if_false]
  rfl

/-- Then no parenthesis in front of it is closed either. -/
lemma exists_operand_eq_unclosed_replicate (hls : Yields .operand ls v (m :: rest))
    (hm : m.kind = .integer) (hts : ts.map Token.bare = List.replicate (k + 1) .opening ++ ls) :
    ∃ place, operand stop ts = .error (unclosedAt place) := by
  induction k generalizing ts with
  | zero => exact exists_operand_eq_unclosed hls hm hts
  | succ k ih =>
      rw [List.replicate_succ, List.cons_append] at hts
      obtain ⟨t, us, rfl, ht, hus⟩ := List.map_eq_cons_iff.mp hts
      obtain ⟨place, hplace⟩ := ih hus
      exact ⟨place, operand_of_opening_of_error (congrArg Lexeme.kind ht) hplace⟩

end Evaluation

/-- Behind `(` and a minus sign any number of parentheses may stand, and all that is found wrong is
that the last one is not closed. -/
lemma exists_evaluate_eq_unclosed {text : String} {w : Value}
    (h : (tokens text).map Token.bare =
      .opening :: ⟨.operator .sub, "-"⟩ :: (List.replicate k .opening ++ ls))
    (hls : Yields .operand ls v (m :: rest))
    (hneg : Yields .operand (⟨.operator .sub, "-"⟩ :: ls) w (m :: rest)) (hm : m.kind = .integer) :
    ∃ place, evaluate text = .error (unclosedAt place) := by
  have hoperand : ∃ place, Evaluation.operand text.utf8ByteSize (tokens text) =
      .error (unclosedAt place) := by
    cases k with
    | zero => exact Evaluation.exists_operand_eq_unclosed hneg hm h
    | succ k =>
        obtain ⟨t, ts, hts, ht, hts'⟩ := List.map_eq_cons_iff.mp h
        obtain ⟨u, us, rfl, hu, hus⟩ := List.map_eq_cons_iff.mp hts'
        obtain ⟨place, hplace⟩ : ∃ place, Evaluation.operand text.utf8ByteSize us =
            .error (unclosedAt place) :=
          Evaluation.exists_operand_eq_unclosed_replicate hls hm hus
        have hsigns : Evaluation.Signs .neg u us := by
          obtain ⟨o, os, rfl, ho, -⟩ := List.map_eq_cons_iff.mp hus
          have hkind : o.kind = .opening := congrArg Lexeme.kind ho
          exact .neg (congrArg Lexeme.kind hu) (by simp [hkind])
        refine ⟨place, ?_⟩
        rw [hts]
        refine Evaluation.operand_of_opening_of_error (congrArg Lexeme.kind ht) ?_
        rw [Evaluation.operand_of_sign hsigns, hplace]
        rfl
  obtain ⟨place, hplace⟩ := hoperand
  refine ⟨place, ?_⟩
  rw [evaluate_eq, hplace]
  rfl

end Unclosed

end Innermost
