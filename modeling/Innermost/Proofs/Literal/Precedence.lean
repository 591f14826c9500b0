import Innermost.Proofs.Literal.Phrase

/-!
Every expression is a phrase.

* `WellFormed`: the tokens are an expression, by rules that leave open which operator is
  applied first.
* `Phrase.Grammatical.exists_behind`: an operator before a phrase belongs to the first operand
  of the phrase.
* `Phrase.Grammatical.exists_between`: an operator between two phrases takes from each of them
  what is to be applied before it.
* `wellFormed_iff`: so expressions are the tokens of the phrases of the language, in which
  the ranks of operators tell what is applied first.
-/

namespace Innermost

/-- The tokens are an expression. -/
inductive WellFormed : List Token → Prop where
  | truth {t : Token} {b : Bool} (ht : t.kind = .truth b) : WellFormed [t]
  | integer {t : Token} (ht : t.kind = .integer) : WellFormed [t]
  | parens {opening closing : Token} {ts : List Token} (hopening : opening.kind = .opening)
      (hts : WellFormed ts) (hclosing : closing.kind = .closing) :
      WellFormed (opening :: (ts ++ [closing]))
  | not {sign : Token} {ts : List Token} (hsign : sign.kind = .bang) (hts : WellFormed ts) :
      WellFormed (sign :: ts)
  | neg {sign : Token} {ts : List Token} (hsign : sign.kind = .operator .sub)
      (hts : WellFormed ts) : WellFormed (sign :: ts)
  | binary {op : BinaryOp} {sign : Token} {ts us : List Token} (hsign : sign.kind = .operator op)
      (hts : WellFormed ts) (hus : WellFormed us) : WellFormed (ts ++ sign :: us)

namespace Phrase

variable {p q y : Phrase} {sign : Token} {op : BinaryOp}

/-- A phrase that is one operand and begins with digits is nothing else. -/
lemma Grammatical.eq_literal {t : Token} (hp : p.Grammatical) (hrank : p.rank = operandRank)
    (hhead : p.tokens.head? = some t) (ht : t.kind = .integer) : p = literal t := by
  cases hp with
  | truth | integer => exact congrArg literal (Option.some.inj hhead)
  | negative hsign | neg hsign =>
      obtain rfl := Option.some.inj hhead
      exact nomatch hsign.symm.trans ht
  | parens hopening =>
      obtain rfl := Option.some.inj hhead
      exact nomatch hopening.symm.trans ht
  | not hsign =>
      obtain rfl := Option.some.inj hhead
      exact nomatch hsign.symm.trans ht
  | @binary op => exact absurd hrank op.rank_lt.ne

/-- An operator before one operand belongs to it. -/
lemma Grammatical.exists_behind_operand (hp : p.Grammatical) (hrank : p.rank = operandRank)
    (hsign : sign.kind = .bang ∨ sign.kind = .operator .sub) :
    ∃ r : Phrase, r.Grammatical ∧ r.tokens = sign :: p.tokens ∧ r.rank = operandRank := by
  rcases hsign with hsign | hsign
  · exact ⟨Phrase.unary .not sign p, .not hsign hp hrank, rfl, rfl⟩
  · by_cases hhead : ∀ t ∈ p.tokens.head?, t.kind ≠ .integer
    · exact ⟨Phrase.unary .neg sign p, .neg hsign hp hrank hhead, rfl, rfl⟩
    · push Not at hhead
      obtain ⟨t, hmem, ht⟩ := hhead
      obtain rfl := hp.eq_literal hrank hmem ht
      exact ⟨Phrase.negative sign t, .negative hsign ht, rfl, rfl⟩

/-- An operator before a phrase belongs to the first operand. -/
lemma Grammatical.exists_behind (hp : p.Grammatical)
    (hsign : sign.kind = .bang ∨ sign.kind = .operator .sub) :
    ∃ r : Phrase, r.Grammatical ∧ r.tokens = sign :: p.tokens ∧ r.rank = p.rank := by
  induction hp with
  | truth ht => exact exists_behind_operand (.truth ht) rfl hsign
  | integer ht => exact exists_behind_operand (.integer ht) rfl hsign
  | negative hminus hdigits => exact exists_behind_operand (.negative hminus hdigits) rfl hsign
  | parens hopening hx hclosing =>
      exact exists_behind_operand (.parens hopening hx hclosing) rfl hsign
  | not hbang hx hrank => exact exists_behind_operand (.not hbang hx hrank) rfl hsign
  | neg hminus hx hrank hhead =>
      exact exists_behind_operand (.neg hminus hx hrank hhead) rfl hsign
  | @binary op x y s hs hx hy hxrank hyrank ihx =>
      obtain ⟨r, hr, htokens, hrank⟩ := ihx
      refine ⟨Phrase.binary op r s y, .binary hs hr hy (hrank ▸ hxrank) hyrank, ?_, rfl⟩
      simp [tokens, htokens]

/-- An operator behind a phrase, with all that it takes on its right, belongs to the last
operand that it may take on its left. -/
lemma Grammatical.exists_before (hp : p.Grammatical) (hy : y.Grammatical)
    (hsign : sign.kind = .operator op) (hyrank : op.rank < y.rank) :
    ∃ r : Phrase, r.Grammatical ∧ r.tokens = p.tokens ++ sign :: y.tokens ∧
      r.rank = min p.rank op.rank := by
  induction p with
  | binary op' a s b _ ihb =>
      by_cases hrank : op.rank ≤ op'.rank
      · exact ⟨Phrase.binary op _ sign y, .binary hsign hp hy hrank hyrank, rfl,
          (min_eq_right hrank).symm⟩
      · cases hp with
        | binary hs ha hb harank hbrank =>
            obtain ⟨r, hr, htokens, hrrank⟩ := ihb hb
            have hlt : op'.rank < op.rank := not_le.mp hrank
            have hrank' : op'.rank < r.rank := hrrank ▸ lt_min hbrank hlt
            refine ⟨Phrase.binary op' a s r, .binary hs ha hr harank hrank', ?_,
              (min_eq_left hlt.le).symm⟩
            simp [tokens, htokens]
  | _ =>
      exact ⟨Phrase.binary op _ sign y, .binary hsign hp hy op.rank_lt.le hyrank, rfl,
        (min_eq_right op.rank_lt.le).symm⟩

/-- An operator between two phrases takes on its right the operators of a greater rank. -/
lemma Grammatical.exists_between (hp : p.Grammatical) (hq : q.Grammatical)
    (hsign : sign.kind = .operator op) :
    ∃ r : Phrase, r.Grammatical ∧ r.tokens = p.tokens ++ sign :: q.tokens := by
  induction q with
  | binary op' a s b iha _ =>
      by_cases hrank : op.rank < op'.rank
      · obtain ⟨r, hr, htokens, -⟩ := hp.exists_before hq hsign hrank
        exact ⟨r, hr, htokens⟩
      · cases hq with
        | binary hs ha hb harank hbrank =>
            obtain ⟨r, hr, hrtokens⟩ := iha ha
            obtain ⟨r', hr', htokens, -⟩ := hr.exists_before hb hs hbrank
            exact ⟨r', hr', by simp [htokens, hrtokens, tokens]⟩
  | _ =>
      obtain ⟨r, hr, htokens, -⟩ := hp.exists_before hq hsign op.rank_lt
      exact ⟨r, hr, htokens⟩

/-- The tokens of a phrase of the language are an expression. -/
lemma Grammatical.wellFormed (hp : p.Grammatical) : WellFormed p.tokens := by
  induction hp with
  | truth ht => exact .truth ht
  | integer ht => exact .integer ht
  | negative hsign hdigits => exact .neg hsign (.integer hdigits)
  | parens hopening _ hclosing ih => exact .parens hopening ih hclosing
  | not hsign _ _ ih => exact .not hsign ih
  | neg hsign _ _ _ ih => exact .neg hsign ih
  | binary hsign _ _ _ _ ihx ihy => exact .binary hsign ihx ihy

end Phrase

/-- **Expressions are the tokens of the phrases of the language.** -/
theorem wellFormed_iff {ts : List Token} :
    WellFormed ts ↔ ∃ p : Phrase, p.Grammatical ∧ ts = p.tokens := by
  refine ⟨fun h => ?_, fun ⟨p, hp, hts⟩ => hts ▸ hp.wellFormed⟩
  induction h with
  | truth ht => exact ⟨_, .truth ht, rfl⟩
  | integer ht => exact ⟨_, .integer ht, rfl⟩
  | parens hopening _ hclosing ih =>
      obtain ⟨p, hp, rfl⟩ := ih
      exact ⟨_, .parens hopening hp hclosing, rfl⟩
  | not hsign _ ih =>
      obtain ⟨p, hp, rfl⟩ := ih
      obtain ⟨r, hr, htokens, -⟩ := hp.exists_behind (.inl hsign)
      exact ⟨r, hr, htokens.symm⟩
  | neg hsign _ ih =>
      obtain ⟨p, hp, rfl⟩ := ih
      obtain ⟨r, hr, htokens, -⟩ := hp.exists_behind (.inr hsign)
      exact ⟨r, hr, htokens.symm⟩
  | binary hsign _ _ ihx ihy =>
      obtain ⟨p, hp, rfl⟩ := ihx
      obtain ⟨q, hq, rfl⟩ := ihy
      obtain ⟨r, hr, htokens⟩ := hp.exists_between hq hsign
      exact ⟨r, hr, htokens.symm⟩

end Innermost
