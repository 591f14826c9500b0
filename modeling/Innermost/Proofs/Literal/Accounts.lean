import Innermost.Proofs.Literal.Phrase

/-!
Every outcome of an evaluation is that of a phrase.

* `Phrase.Fails`: the operands of a phrase have values, and the phrase itself has none.
* `Blamed`: what is wrong with some tokens. They end too soon, one of them has no place
  where it stands, or some of them side by side are a phrase that fails.
* `Accounted`: computations whose result has a property and whose fault blames the tokens.
* `accounts`: an operand that the evaluator finds is a phrase in front of the tokens that are
  left, and climbing goes on from one phrase to a greater one.
* `judged_evaluate`: a text that has a value is a phrase, and the fault of any other text
  blames its tokens, unless it is that tokens are left behind a phrase.
-/

namespace Innermost

open Evaluation

/-! ### Phrases that fail -/

namespace Phrase

/-- The phrase has no value for the reason `d`, and all its operands have one. -/
inductive Fails : Phrase → Diagnostic → Prop where
  | integer {t : Token} {d : Diagnostic} (ht : t.kind = .integer)
      (h : Evaluation.integer false t.lexeme t.span = .error d) : Fails (literal t) d
  | negative {sign digits : Token} {d : Diagnostic}
      (h : Evaluation.integer true digits.lexeme (sign.span.through digits.span) = .error d) :
      Fails (negative sign digits) d
  | unary {op : UnaryOp} {sign : Token} {x : Phrase} {v : Operand} {d : Diagnostic}
      (hx : x.eval = .ok v) (h : op.apply sign.span v = .error d) : Fails (unary op sign x) d
  | binary {op : BinaryOp} {x y : Phrase} {sign : Token} {v w : Operand} {d : Diagnostic}
      (hx : x.eval = .ok v) (hy : y.eval = .ok w) (h : op.apply sign.span v w = .error d) :
      Fails (binary op x sign y) d

lemma Fails.eval_eq {p : Phrase} {d : Diagnostic} (h : p.Fails d) : p.eval = .error d := by
  cases h with
  | integer ht h => rwa [eval_of_integer ht]
  | negative h => exact h
  | unary hx h =>
      rw [eval, hx]
      exact h
  | binary hx hy h =>
      rw [eval, hx, hy]
      exact h

end Phrase

/-! ### Outcomes -/

/-- What is wrong with the tokens of a text that ends at byte `stop`. -/
inductive Blamed (stop : Nat) (ts : List Token) : Diagnostic → Prop where
  /-- They end where an operand or `)` has to stand. -/
  | atEnd : Blamed stop ts (LiteralFault.unexpectedEnd.at [.empty stop])
  /-- One of them is a name. -/
  | name {t : Token} (ht : t ∈ ts) (hkind : t.kind = .name) :
      Blamed stop ts ((LiteralFault.unknownName t.lexeme (suggestions t.lexeme)).at [t.span])
  /-- One of them is of a kind that has no place there. -/
  | token {t : Token} (ht : t ∈ ts) (expected : List TokenKind) :
      Blamed stop ts ((LiteralFault.unexpectedToken expected t.kind).at [t.span])
  /-- Some of them are a phrase that fails. -/
  | phrase {p : Phrase} {d : Diagnostic} (hp : p.Grammatical) (htokens : p.tokens <:+: ts)
      (hd : p.Fails d) : Blamed stop ts d

/-- What is wrong with some tokens is wrong with all among which they stand. -/
lemma Blamed.mono {stop : Nat} {ts us : List Token} {d : Diagnostic} (h : Blamed stop us d)
    (hus : us <:+: ts) : Blamed stop ts d := by
  cases h with
  | atEnd => exact .atEnd
  | name ht hkind => exact .name (hus.subset ht) hkind
  | token ht expected => exact .token (hus.subset ht) expected
  | phrase hp htokens hd => exact .phrase hp (htokens.trans hus) hd

/-- The computation comes to a result with the property `P`, or to a fault of the tokens. -/
abbrev Accounted (stop : Nat) (ts : List Token) {α : Type} (P : α → Prop) :
    Except Diagnostic α → Prop :=
  ComesTo P (Blamed stop ts)

lemma Accounted.among {stop : Nat} {ts us : List Token} {α : Type} {P : α → Prop}
    {c : Except Diagnostic α} (h : Accounted stop us P c) (hus : us <:+: ts) :
    Accounted stop ts P c :=
  h.mono (fun _ ha => ha) fun _ hd => hd.mono hus

/-! ### Steps of the evaluator -/

/-- The tokens `ts` are a phrase with the value `x`, in front of the tokens that are left. The
phrase is one operand to all operators below the rank `floor`. -/
structure IsPhrase (floor : Nat) (ts : List Token) (p : Phrase) (found : Operand × List Token) :
    Prop where
  grammatical : p.Grammatical
  eval_eq : p.eval = .ok found.1
  floor_le : floor ≤ p.rank
  tokens_eq : ts = p.tokens ++ found.2

section Steps

variable {stop floor : Nat} {t : Token} {ts rest : List Token} {p : Phrase} {x : Operand}

lemma IsPhrase.mono {floor' : Nat} {found : Operand × List Token} (h : IsPhrase floor ts p found)
    (hle : floor' ≤ floor) : IsPhrase floor' ts p found :=
  ⟨h.grammatical, h.eval_eq, hle.trans h.floor_le, h.tokens_eq⟩

/-- Behind one operand, no operator goes on with it alone. -/
lemma IsPhrase.rests {found : Operand × List Token} (h : IsPhrase operandRank ts p found) :
    Rests (p.rank + 1) (found.2.map Token.bare) :=
  (rests_operandRank _).mono (h.floor_le.trans (Nat.le_succ _))

lemma accounted_atEnd {α : Type} {P : α → Prop} : Accounted stop ts P (atEnd stop) :=
  .error .atEnd

/-- A phrase that has a value unless it fails itself is accounted for. -/
lemma accounted_eval (hp : p.Grammatical) (hfails : ∀ d, p.eval = .error d → p.Fails d)
    (hfloor : floor ≤ p.rank) (hts : ts = p.tokens ++ rest) :
    Accounted stop ts (fun x => IsPhrase floor ts p (x, rest)) p.eval := by
  cases heval : p.eval with
  | ok x => exact .ok ⟨hp, heval, hfloor, hts⟩
  | error d => exact .error (.phrase hp (hts ▸ (List.prefix_append _ _).isInfix) (hfails d heval))

/-- So is a literal as an operand. -/
lemma accounted_literal (hp : p.Grammatical) (hfails : ∀ d, p.eval = .error d → p.Fails d)
    (hfloor : operandRank ≤ p.rank) :
    Accounted stop (p.tokens ++ rest)
      (fun found => ∃ q, IsPhrase operandRank (p.tokens ++ rest) q found)
      (p.eval.map (·, rest)) :=
  (accounted_eval hp hfails hfloor rfl).map fun _ hx => ⟨p, hx⟩

/-- What is refused is wrong by itself. -/
lemma Blamed.of_refuses {d : Diagnostic} (h : Refuses t d) : Blamed stop (t :: ts) d := by
  cases h with
  | name ht => exact .name List.mem_cons_self ht
  | unexpected => exact .token List.mem_cons_self _

/-- An operation on one operand is a phrase. -/
lemma Evaluation.Signs.grammatical {op : UnaryOp} (h : Signs op t (p.tokens ++ rest))
    (hp : p.Grammatical) (hrank : p.rank = operandRank) :
    (Phrase.unary op t p).Grammatical := by
  cases h with
  | not ht => exact .not ht hp hrank
  | neg ht hhead =>
      rw [List.head?_append_of_ne_nil _ p.tokens_ne_nil] at hhead
      exact .neg ht hp hrank hhead

/-- An expression in parentheses is a phrase, if it is closed. -/
lemma accounted_close {q : Phrase} (ht : t.kind = .opening) (hq : IsPhrase 0 ts q (x, rest)) :
    Accounted stop (t :: ts) (fun found => ∃ p, IsPhrase operandRank (t :: ts) p found)
      (bare (close stop t.span x rest)) := by
  obtain ⟨hgrammatical, hx, -, rfl⟩ := hq
  cases rest with
  | nil => exact accounted_atEnd
  | cons u rest =>
      rw [close]
      split_ifs with hu
      · refine .ok ⟨.parens t q u, .parens ht hgrammatical hu, ?_, le_rfl, by simp [Phrase.tokens]⟩
        rw [Phrase.eval, hx]
        rfl
      · exact .error (.token (by simp) _)

/-- **What the evaluator finds are phrases**, and what it fails for are tokens. The operators
that it leaves are none that go on with a phrase. -/
theorem accounts (stop : Nat) :
    (∀ ts, Accounted stop ts (fun found => ∃ p, IsPhrase operandRank ts p found)
      (operand stop ts)) ∧
    ∀ floor x us ts p, IsPhrase floor ts p (x, us) → Rests (p.rank + 1) (us.map Token.bare) →
      Accounted stop ts (fun found => Rests floor (found.2.map Token.bare) ∧
        ∃ q, IsPhrase floor ts q found) (climb stop floor x us) := by
  refine reading_induction
    (P := fun ts r => Accounted stop ts (fun found => ∃ p, IsPhrase operandRank ts p found) r)
    (Q := fun floor x us r => ∀ ts p, IsPhrase floor ts p (x, us) →
      Rests (p.rank + 1) (us.map Token.bare) →
      Accounted stop ts (fun found => Rests floor (found.2.map Token.bare) ∧
        ∃ q, IsPhrase floor ts q found) r)
    ?ended ?truth ?digits ?negative ?parens ?sign ?refused ?rests ?operator
  case ended => exact accounted_atEnd
  case truth =>
      intro t ts b ht
      exact .ok ⟨.literal t, .truth ht, Phrase.eval_of_truth ht, le_rfl, rfl⟩
  case digits =>
      intro t ts ht
      rw [← Phrase.eval_of_integer ht]
      exact accounted_literal (.integer ht)
        (fun d hd => .integer ht (Phrase.eval_of_integer ht ▸ hd)) le_rfl
  case negative =>
      intro t u us ht hu
      exact accounted_literal (p := .negative t u) (.negative ht hu) (fun d hd => .negative hd)
        le_rfl
  case parens =>
      intro t ts ht ihx ihv
      have hamong : ts <:+: t :: ts := (List.suffix_cons t ts).isInfix
      refine (ihx.among hamong).bind fun (x, us) hx ⟨p, hp⟩ => ?_
      refine ((ihv x us hx ts p (hp.mono (Nat.zero_le _)) hp.rests).among hamong).bind ?_
      rintro ⟨y, ws⟩ - ⟨-, q, hq⟩
      exact accounted_close ht hq
  case sign =>
      intro op t ts hsign ih
      have hamong : ts <:+: t :: ts := (List.suffix_cons t ts).isInfix
      refine (ih.among hamong).bind ?_
      rintro ⟨v, us⟩ - ⟨p, hgrammatical, hv, hrank, rfl⟩
      have hunary := hsign.grammatical hgrammatical (Nat.le_antisymm p.rank_le hrank)
      have heval : op.apply t.span v = (Phrase.unary op t p).eval := by
        rw [Phrase.eval, hv]
        rfl
      dsimp only
      rw [heval]
      exact (accounted_eval hunary (fun d hd => .unary hv (heval.trans hd)) le_rfl rfl).bind
        fun x _ hx => .ok ⟨_, hx⟩
  case refused => exact fun hd => .error (.of_refuses hd)
  case rests => exact fun hrests ts p hp _ => .ok ⟨hrests, p, hp⟩
  case operator =>
      intro floor x t us op ht hop ihy ihz ihv ts p hp hrests
      have hamong : us <:+: ts := by
        rw [hp.tokens_eq]
        exact ⟨p.tokens ++ [t], [], by simp⟩
      have hprank : op.rank ≤ p.rank := Nat.le_of_lt_succ (hrests t.bare (by simp) op ht)
      -- `q₀` is the operand behind the operator, and `q` what the tighter operators make of it
      refine (ihy.among hamong).bind fun (y, vs) hy ⟨q₀, hq₀⟩ => ?_
      refine ((ihz y vs hy us q₀ (hq₀.mono op.rank_lt) hq₀.rests).among hamong).bind ?_
      rintro ⟨z, ws⟩ hz ⟨hws, q, hq⟩
      have hgrammatical : (Phrase.binary op p t q).Grammatical :=
        .binary ht hp.grammatical hq.grammatical hprank hq.floor_le
      have heval : op.apply t.span x z = (Phrase.binary op p t q).eval := by
        rw [Phrase.eval, hp.eval_eq, hq.eval_eq]
        rfl
      have htokens : ts = (Phrase.binary op p t q).tokens ++ ws := by
        rw [hp.tokens_eq, hq.tokens_eq, Phrase.tokens, List.append_assoc, List.cons_append]
      dsimp only
      rw [heval]
      refine (accounted_eval hgrammatical
        (fun d hd => .binary hp.eval_eq hq.eval_eq (heval.trans hd)) hop htokens).bind ?_
      exact fun x' _ hx' => ihv y vs z ws x' hy hz ts _ hx' hws

/-- An expression is a phrase, in front of the tokens that are left. -/
lemma accounted_expression (stop : Nat) (ts : List Token) :
    Accounted stop ts (fun found => ∃ p, IsPhrase 0 ts p found) (bare (expression stop ts)) := by
  obtain ⟨hoperand, hclimb⟩ := accounts stop
  rw [bare_expression]
  refine (hoperand ts).bind ?_
  rintro ⟨x, us⟩ - ⟨p, hp⟩
  exact (hclimb 0 x us ts p (hp.mono (Nat.zero_le _)) hp.rests).mono (fun _ h => h.2)
    fun _ h => h

end Steps

/-! ### Texts -/

/-- What becomes of a text, by what the evaluator finds at its start. -/
inductive Judged (text : String) : Except Diagnostic Value → Prop where
  /-- The text is a phrase with a value. -/
  | value {p : Phrase} {x : Operand} (hp : IsPhrase 0 (tokens text) p (x, [])) :
      Judged text (.ok x.value)
  /-- Something is wrong with its tokens. -/
  | blamed {d : Diagnostic} (hd : Blamed text.utf8ByteSize (tokens text) d) :
      Judged text (.error d)
  /-- Tokens are left behind a phrase with a value. -/
  | trailing {p : Phrase} {x : Operand} {t : Token} {rest : List Token}
      (hp : IsPhrase 0 (tokens text) p (x, t :: rest)) :
      Judged text (.error (LiteralFault.trailingTokens.at [⟨t.span.start, text.utf8ByteSize⟩]))

/-- **Every outcome of a text is told by its tokens.** -/
theorem judged_evaluate (text : String) : Judged text (evaluate text) := by
  have hexpression := accounted_expression text.utf8ByteSize (tokens text)
  rw [evaluate_eq, ← bare_expression]
  generalize bare (expression text.utf8ByteSize (tokens text)) = found at hexpression
  cases hexpression with
  | error hd => exact .blamed hd
  | @ok found h =>
      obtain ⟨x, rest⟩ := found
      obtain ⟨p, hp⟩ := h
      cases rest with
      | nil => exact .value hp
      | cons t rest => exact .trailing hp

/-- **A text that has a value is a phrase.** -/
theorem exists_phrase_of_evaluate {text : String} {v : Value} (h : evaluate text = .ok v) :
    ∃ p : Phrase, p.Grammatical ∧ tokens text = p.tokens := by
  have hjudged := h ▸ judged_evaluate text
  cases hjudged with
  | @value p x hp => exact ⟨p, hp.grammatical, by simpa using hp.tokens_eq⟩

end Innermost
