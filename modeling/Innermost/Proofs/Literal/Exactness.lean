import Innermost.Proofs.Literal.Typing

/-!
Arithmetic is exact, or fails.

* `Phrase.exact`: the value of a phrase of arithmetic among all integers.
* `Phrase.Computable`: the exact values of a phrase and of all its parts fit in 64 bits, those
  of literals included, and no divisor is zero. Each form of a phrase is computable if its
  operands are and its own value fits (`computable_binary`).
* `BinaryOp.IsArithmetic.eval_eq_ok_iff`: one operation has a result if and only if the exact
  result fits, and no divisor is zero.
* `Phrase.Grammatical.hasValue_iff`: so a phrase has a value if and only if it is computable,
  and then its exact value. One case for each form of a phrase.
* `arithmetic_exact` says so of texts.
-/

namespace Innermost

open Evaluation

/-! ### Exact values -/

/-- The tokens that arithmetic is written with. -/
def TokenKind.IsArithmetic : TokenKind → Prop
  | integer | opening | closing => True
  | operator op => op.IsArithmetic
  | _ => False

instance (op : BinaryOp) : Decidable op.IsArithmetic :=
  inferInstanceAs (Decidable (_ ∨ _))

instance : DecidablePred TokenKind.IsArithmetic
  | .integer | .opening | .closing => .isTrue trivial
  | .operator op => inferInstanceAs (Decidable op.IsArithmetic)
  | .blank | .truth _ | .name | .bang | .symbol => .isFalse id

/-- The result of an operator of arithmetic among all integers. Quotients are rounded towards
zero, and remainders have the sign of the dividend. Of the other operators it tells nothing. -/
def BinaryOp.exact (op : BinaryOp) (m n : Int) : Int :=
  match op with
  | add => m + n
  | sub => m - n
  | mul => m * n
  | div => m.tdiv n
  | mod => m.tmod n
  | _ => 0

/-- The integer fits in 64 bits. -/
def Fits (n : Int) : Prop := -2 ^ 63 ≤ n ∧ n ≤ 2 ^ 63 - 1

instance (n : Int) : Decidable (Fits n) := inferInstanceAs (Decidable (_ ∧ _))

namespace Phrase

/-- The phrases of arithmetic. -/
inductive IsArithmetic : Phrase → Prop where
  | integer {t : Token} (ht : t.kind = .integer) : IsArithmetic (literal t)
  | negative {sign digits : Token} : IsArithmetic (negative sign digits)
  | parens {opening closing : Token} {x : Phrase} (hx : IsArithmetic x) :
      IsArithmetic (parens opening x closing)
  | neg {sign : Token} {x : Phrase} (hx : IsArithmetic x) : IsArithmetic (unary .neg sign x)
  | binary {op : BinaryOp} {x y : Phrase} {sign : Token} (hop : op.IsArithmetic)
      (hx : IsArithmetic x) (hy : IsArithmetic y) : IsArithmetic (binary op x sign y)

/-- The value of a phrase of arithmetic among all integers. Of other phrases it tells
nothing. -/
def exact : Phrase → Int
  | literal t => t.bare.number
  | negative _ digits => -digits.bare.number
  | parens _ x _ => x.exact
  | unary _ _ x => -x.exact
  | binary op x _ y => op.exact x.exact y.exact

/-- All exact values in the phrase fit in 64 bits, and no divisor is zero. -/
structure Computable (p : Phrase) : Prop where
  fits : ∀ q ∈ p.subphrases, Fits q.exact
  divisor_ne_zero : ∀ {op : BinaryOp} {x y : Phrase} {sign : Token},
    binary op x sign y ∈ p.subphrases → op = .div ∨ op = .mod → y.exact ≠ 0

end Phrase

/-! ### Numbers -/

section Numbers

variable {n : Int} {v : Value}

lemma fits_val (a : Number) : Fits a.val :=
  ⟨by simpa using a.min_le, by have := a.lt_bound; norm_num; omega⟩

lemma fits_iff : Fits n ↔ ∃ a : Number, a.val = n := by
  refine ⟨fun ⟨hmin, hmax⟩ => ?_, fun ⟨a, ha⟩ => ha ▸ fits_val a⟩
  norm_num at hmin hmax
  exact ⟨⟨n, hmin, by omega⟩, rfl⟩

lemma fitting_ofInt?_eq_ok_iff :
    fitting (Number.ofInt? n) = .ok v ↔ ∃ a : Number, a.val = n ∧ v = .integer a := by
  rw [fitting_eq_ok_iff]
  simp only [Number.ofInt?_eq_some_iff]

/-- An operation of arithmetic asks whether the divisor is zero, and whether the exact result
fits. -/
lemma BinaryOp.IsArithmetic.eval_eq {op : BinaryOp} (hop : op.IsArithmetic) (a b : Number) :
    op.eval (.integer a) (.integer b) =
      if (op = .div ∨ op = .mod) ∧ b.val = 0 then .error .divisionByZero
      else fitting (Number.ofInt? (op.exact a.val b.val)) := by
  cases op <;> simp [IsArithmetic, level] at hop
  case add | sub | mul => rfl
  case div | mod =>
    simp only [eval, true_or, or_true, true_and]
    rfl

/-- **An operation has a result if and only if the exact result fits.** -/
lemma BinaryOp.IsArithmetic.eval_eq_ok_iff {op : BinaryOp} (hop : op.IsArithmetic)
    (a b : Number) :
    op.eval (.integer a) (.integer b) = .ok v ↔
      (op = .div ∨ op = .mod → b.val ≠ 0) ∧
        ∃ c : Number, c.val = op.exact a.val b.val ∧ v = .integer c := by
  rw [hop.eval_eq, ← fitting_ofInt?_eq_ok_iff]
  split_ifs with hzero
  · exact iff_of_false nofun fun ⟨hne, _⟩ => hne hzero.1 hzero.2
  · exact (and_iff_right fun hdiv hb => hzero ⟨hdiv, hb⟩).symm

/-- A remainder fits. -/
lemma fits_tmod (a b : Number) (hb : b.val ≠ 0) : Fits (a.val.tmod b.val) := by
  have hle : (a.val.tmod b.val).natAbs < b.val.natAbs := by
    rw [Int.natAbs_tmod]
    exact Nat.mod_lt _ (Int.natAbs_pos.mpr hb)
  have := b.min_le
  have := b.lt_bound
  constructor <;> norm_num <;> omega

end Numbers

/-! ### Phrases that can be computed -/

namespace Phrase

variable {p x y : Phrase} {t sign digits opening closing : Token} {v : Value}

/-- A literal is its only part. -/
lemma computable_iff_fits (hparts : p.subphrases = [p])
    (hne : ∀ op x sign y, binary op x sign y ≠ p) : p.Computable ↔ Fits p.exact := by
  refine ⟨fun h => h.fits p (mem_subphrases_self p), fun h => ⟨?_, ?_⟩⟩
  · simpa [hparts] using h
  · intro op x y sign hmem
    rw [hparts, List.mem_singleton] at hmem
    exact absurd hmem (hne op x sign y)

lemma Computable.of_subset (h : p.Computable) (hsub : x.subphrases ⊆ p.subphrases) :
    x.Computable :=
  ⟨fun q hq => h.fits q (hsub hq), fun hmem => h.divisor_ne_zero (hsub hmem)⟩

lemma Computable.fits_exact (h : p.Computable) : Fits p.exact :=
  h.fits p (mem_subphrases_self p)

lemma computable_parens : (parens opening x closing).Computable ↔ x.Computable := by
  refine ⟨fun h => h.of_subset (List.subset_cons_self _ _), fun h => ⟨?_, ?_⟩⟩
  · exact List.forall_mem_cons.mpr ⟨h.fits_exact, h.fits⟩
  · rintro op y z sign (_ | ⟨_, hmem⟩)
    exact h.divisor_ne_zero hmem

lemma computable_unary {op : UnaryOp} :
    (unary op sign x).Computable ↔ x.Computable ∧ Fits (-x.exact) := by
  refine ⟨fun h => ⟨h.of_subset (List.subset_cons_self _ _), h.fits_exact⟩,
    fun ⟨h, hfits⟩ => ⟨?_, ?_⟩⟩
  · exact List.forall_mem_cons.mpr ⟨hfits, h.fits⟩
  · rintro op y z sign (_ | ⟨_, hmem⟩)
    exact h.divisor_ne_zero hmem

lemma computable_binary {op : BinaryOp} :
    (binary op x sign y).Computable ↔
      x.Computable ∧ y.Computable ∧ (op = .div ∨ op = .mod → y.exact ≠ 0) ∧
        Fits (op.exact x.exact y.exact) := by
  constructor
  · intro h
    refine ⟨h.of_subset ?_, h.of_subset ?_, h.divisor_ne_zero (mem_subphrases_self _),
      h.fits_exact⟩
    · exact List.subset_cons_of_subset _ (List.subset_append_left _ _)
    · exact List.subset_cons_of_subset _ (List.subset_append_right _ _)
  · rintro ⟨hx, hy, hne, hfits⟩
    refine ⟨?_, ?_⟩
    · exact List.forall_mem_cons.mpr ⟨hfits, List.forall_mem_append.mpr ⟨hx.fits, hy.fits⟩⟩
    · rintro op y z sign (_ | ⟨_, hmem⟩)
      · exact hne
      · exact (List.mem_append.mp hmem).elim hx.divisor_ne_zero hy.divisor_ne_zero

/-! ### Values of arithmetic -/

/-- The phrase has a value if and only if it is computable, and then its exact value. -/
def HasExactValue (p : Phrase) : Prop :=
  ∀ v, p.HasValue v ↔ p.Computable ∧ ∃ a : Number, a.val = p.exact ∧ v = .integer a

lemma hasExactValue_of_literal (hparts : p.subphrases = [p])
    (hne : ∀ op x sign y, binary op x sign y ≠ p)
    (hvalue : ∀ v, p.HasValue v ↔ ∃ a : Number, a.val = p.exact ∧ v = .integer a) :
    p.HasExactValue := by
  intro v
  rw [hvalue, computable_iff_fits hparts hne]
  exact (and_iff_right_of_imp fun ⟨a, ha, _⟩ => fits_iff.mpr ⟨a, ha⟩).symm

lemma HasExactValue.neg (hx : x.HasExactValue) : (unary .neg sign x).HasExactValue := by
  intro v
  rw [hasValue_unary, computable_unary]
  constructor
  · rintro ⟨u, hu, h⟩
    obtain ⟨hcomputable, a, ha, rfl⟩ := (hx u).mp hu
    obtain ⟨b, hb, rfl⟩ := fitting_ofInt?_eq_ok_iff.mp h
    rw [ha] at hb
    exact ⟨⟨hcomputable, fits_iff.mpr ⟨b, hb⟩⟩, b, hb, rfl⟩
  · rintro ⟨⟨hcomputable, -⟩, b, hb, rfl⟩
    obtain ⟨a, ha⟩ := fits_iff.mp hcomputable.fits_exact
    refine ⟨.integer a, (hx _).mpr ⟨hcomputable, a, ha, rfl⟩, ?_⟩
    exact fitting_ofInt?_eq_ok_iff.mpr ⟨b, by rw [hb, ha, exact], rfl⟩

lemma HasExactValue.binary {op : BinaryOp} (hx : x.HasExactValue) (hy : y.HasExactValue)
    (hop : op.IsArithmetic) : (Phrase.binary op x sign y).HasExactValue := by
  intro v
  rw [hasValue_binary, computable_binary]
  constructor
  · rintro ⟨u, w, hu, hw, h⟩
    obtain ⟨hxc, a, ha, rfl⟩ := (hx u).mp hu
    obtain ⟨hyc, b, hb, rfl⟩ := (hy w).mp hw
    obtain ⟨hne, c, hc, rfl⟩ := (hop.eval_eq_ok_iff a b).mp h
    rw [ha, hb] at hc
    rw [hb] at hne
    exact ⟨⟨hxc, hyc, hne, fits_iff.mpr ⟨c, hc⟩⟩, c, hc, rfl⟩
  · rintro ⟨⟨hxc, hyc, hne, -⟩, c, hc, rfl⟩
    obtain ⟨a, ha⟩ := fits_iff.mp hxc.fits_exact
    obtain ⟨b, hb⟩ := fits_iff.mp hyc.fits_exact
    refine ⟨.integer a, .integer b, (hx _).mpr ⟨hxc, a, ha, rfl⟩, (hy _).mpr ⟨hyc, b, hb, rfl⟩, ?_⟩
    rw [exact, ← ha, ← hb] at hc
    rw [← hb] at hne
    exact (hop.eval_eq_ok_iff a b).mpr ⟨hne, c, hc, rfl⟩

/-- The phrases that are written with the tokens of arithmetic. -/
lemma Grammatical.isArithmetic (hp : p.Grammatical)
    (hkinds : ∀ t ∈ p.tokens, t.kind.IsArithmetic) : p.IsArithmetic := by
  induction hp with
  | @truth t b ht =>
      have hkind := hkinds t List.mem_cons_self
      rw [ht] at hkind
      exact hkind.elim
  | integer ht => exact .integer ht
  | negative => exact .negative
  | parens _ _ _ ih => exact .parens (ih fun t ht => hkinds t (by simp [tokens, ht]))
  | @not sign x hsign =>
      have hkind := hkinds sign List.mem_cons_self
      rw [hsign] at hkind
      exact hkind.elim
  | neg _ _ _ _ ih => exact .neg (ih fun t ht => hkinds t (.tail _ ht))
  | @binary op x y sign hsign _ _ _ _ ihx ihy =>
      have hkind := hkinds sign (by simp [tokens])
      rw [hsign] at hkind
      exact .binary hkind (ihx fun t ht => hkinds t (by simp [tokens, ht]))
        (ihy fun t ht => hkinds t (by simp [tokens, ht]))

lemma IsArithmetic.hasType (h : p.IsArithmetic) : p.HasType .integer := by
  induction h with
  | integer ht => exact .integer ht
  | negative => exact .negative
  | parens _ ih => exact .parens ih
  | neg _ ih => exact .unary ih .neg
  | binary hop _ _ ihx ihy => exact .binary ihx ihy (.arithmetic hop)

/-- **A phrase of arithmetic has its exact value**, or none. -/
theorem IsArithmetic.hasExactValue (h : p.IsArithmetic) : p.HasExactValue := by
  induction h with
  | integer ht =>
      refine hasExactValue_of_literal rfl (fun _ _ _ _ h => nomatch h) fun v => ?_
      rw [hasValue_integer ht, exact]
  | negative =>
      refine hasExactValue_of_literal rfl (fun _ _ _ _ h => nomatch h) fun v => ?_
      rw [hasValue_negative, exact]
  | parens _ ih =>
      intro v
      rw [hasValue_parens, computable_parens]
      exact ih v
  | neg _ ih => exact ih.neg
  | binary hop _ _ ihx ihy => exact ihx.binary ihy hop

/-- The remainder by a divisor other than zero is always found. -/
lemma hasValue_mod {a b : Number} (ha : x.HasValue (.integer a)) (hb : y.HasValue (.integer b))
    (hne : b.val ≠ 0) :
    ∃ c : Number, c.val = a.val.tmod b.val ∧
      (Phrase.binary .mod x sign y).HasValue (.integer c) := by
  obtain ⟨c, hc⟩ := fits_iff.mp (fits_tmod a b hne)
  have hop : BinaryOp.mod.IsArithmetic := .inr rfl
  exact ⟨c, hc, hasValue_binary.mpr ⟨_, _, ha, hb,
    (hop.eval_eq_ok_iff a b).mpr ⟨fun _ => hne, c, hc, rfl⟩⟩⟩

end Phrase

/-! ### Texts -/

/-- **Arithmetic is exact, or fails.** An expression that is written with integers, the
operators of arithmetic and parentheses is a phrase. It has a value if and only if all exact
values in it fit in 64 bits, those of literals included, and no divisor is zero; this value is
the exact one. Otherwise arithmetic fails. A remainder by a divisor other than zero never
does. -/
theorem arithmetic_exact {text : String} (htext : WellFormed (tokens text))
    (hkinds : ∀ t ∈ tokens text, t.kind.IsArithmetic) :
    (∃ p : Phrase, p.Grammatical ∧ tokens text = p.tokens) ∧
    ∀ p : Phrase, p.Grammatical → tokens text = p.tokens →
      ((∃ v, evaluate text = .ok v) ↔ p.Computable) ∧
      (∀ v, evaluate text = .ok v → ∃ a : Number, a.val = p.exact ∧ v = .integer a) ∧
      (¬ p.Computable → ∃ d, evaluate text = .error d ∧ d.IsArithmetic) ∧
      ∀ (x y : Phrase) (sign : Token) (a b : Number),
        Phrase.binary .mod x sign y ∈ p.subphrases →
        evaluate (x.span.slice text) = .ok (.integer a) →
        evaluate (y.span.slice text) = .ok (.integer b) → b.val ≠ 0 →
        ∃ c : Number, c.val = a.val.tmod b.val ∧
          evaluate ((Phrase.binary .mod x sign y).span.slice text) = .ok (.integer c) := by
  refine ⟨wellFormed_iff.mp htext, fun p hp htokens => ?_⟩
  have harithmetic : p.IsArithmetic := hp.isArithmetic (htokens ▸ hkinds)
  have hexact (v : Value) : evaluate text = .ok v ↔
      p.Computable ∧ ∃ a : Number, a.val = p.exact ∧ v = .integer a :=
    (hp.evaluate_eq_ok_iff htokens).trans (harithmetic.hasExactValue v)
  refine ⟨⟨fun ⟨v, hv⟩ => ((hexact v).mp hv).1, fun hcomputable => ?_⟩,
    fun v hv => ((hexact v).mp hv).2, fun hnot => ?_, ?_⟩
  · obtain ⟨a, ha⟩ := fits_iff.mp hcomputable.fits_exact
    exact ⟨.integer a, (hexact _).mpr ⟨hcomputable, a, ha, rfl⟩⟩
  · obtain ⟨v, hv, -⟩ | herror := (harithmetic.hasType.comesTo_evaluate hp htokens).ok_or_error
    · exact absurd ((hexact v).mp hv).1 hnot
    · exact herror
  · intro x y sign a b hmem ha hb hne
    have hinfix : (Phrase.binary .mod x sign y).tokens <:+: tokens text :=
      htokens ▸ Phrase.tokens_isInfix_of_mem hmem
    have hslice {q : Phrase} (hq : q ∈ (Phrase.binary .mod x sign y).subphrases) (v : Value) :
        evaluate (q.span.slice text) = .ok v ↔ q.HasValue v :=
      (hp.of_mem hmem).evaluate_slice_of_mem hinfix hq
    have hx : x ∈ (Phrase.binary .mod x sign y).subphrases :=
      .tail _ (List.mem_append_left _ x.mem_subphrases_self)
    have hy : y ∈ (Phrase.binary .mod x sign y).subphrases :=
      .tail _ (List.mem_append_right _ y.mem_subphrases_self)
    obtain ⟨c, hc, hvalue⟩ := Phrase.hasValue_mod ((hslice hx _).mp ha) ((hslice hy _).mp hb) hne
    exact ⟨c, hc, (hslice (Phrase.mem_subphrases_self _) _).mpr hvalue⟩

/-- The least integer may be written and divided by `-1` with a remainder, and digits may
begin with zeros. The opposite of the least integer does not fit. -/
theorem arithmetic_exact_least :
    let text := "(-9223372036854775808 % -1 + 0007) / -2"
    let least : Phrase :=
      .negative ⟨.operator .sub, ⟨1, 2⟩, "-"⟩ ⟨.integer, ⟨2, 21⟩, "9223372036854775808"⟩
    let one : Phrase := .negative ⟨.operator .sub, ⟨24, 25⟩, "-"⟩ ⟨.integer, ⟨25, 26⟩, "1"⟩
    let remainder : Phrase := .binary .mod least ⟨.operator .mod, ⟨22, 23⟩, "%"⟩ one
    let p : Phrase := .binary .div
      (.parens ⟨.opening, ⟨0, 1⟩, "("⟩
        (.binary .add remainder ⟨.operator .add, ⟨27, 28⟩, "+"⟩
          (.literal ⟨.integer, ⟨29, 33⟩, "0007"⟩))
        ⟨.closing, ⟨33, 34⟩, ")"⟩)
      ⟨.operator .div, ⟨35, 36⟩, "/"⟩
      (.negative ⟨.operator .sub, ⟨37, 38⟩, "-"⟩ ⟨.integer, ⟨38, 39⟩, "2"⟩)
    let opposite : Phrase := .unary .neg ⟨.operator .sub, ⟨0, 1⟩, "-"⟩
      (.parens ⟨.opening, ⟨1, 2⟩, "("⟩
        (.negative ⟨.operator .sub, ⟨2, 3⟩, "-"⟩ ⟨.integer, ⟨3, 22⟩, "9223372036854775808"⟩)
        ⟨.closing, ⟨22, 23⟩, ")"⟩)
    (p.Grammatical ∧ tokens text = p.tokens ∧ (∀ t ∈ tokens text, t.kind.IsArithmetic) ∧
      p.Computable ∧ p.exact = -3 ∧
      (∃ a : Number, a.val = p.exact ∧ evaluate text = .ok (.integer a)) ∧
      ∃ c : Number, c.val = 0 ∧ evaluate (remainder.span.slice text) = .ok (.integer c)) ∧
    opposite.Grammatical ∧ tokens "-(-9223372036854775808)" = opposite.tokens ∧
      (∀ t ∈ tokens "-(-9223372036854775808)", t.kind.IsArithmetic) ∧ ¬ opposite.Computable ∧
      ∃ d, evaluate "-(-9223372036854775808)" = .error d ∧ d.IsArithmetic := by
  intro text least one remainder p opposite
  have hp : p.Grammatical :=
    .binary rfl (.parens rfl (.binary rfl (.binary rfl (.negative rfl rfl) (.negative rfl rfl)
      (by decide) (by decide)) (.integer rfl) (by decide) (by decide)) rfl) (.negative rfl rfl)
      (by decide) (by decide)
  have htokens : tokens text = p.tokens := by decide +kernel
  have hkinds : ∀ t ∈ tokens text, t.kind.IsArithmetic := by decide +kernel
  have hvalue : evaluate text = .ok (.integer ⟨-3, by decide, by decide⟩) := by decide +kernel
  obtain ⟨hok, hexact, -, hmod⟩ :=
    (arithmetic_exact (wellFormed_iff.mpr ⟨p, hp, htokens⟩) hkinds).2 p hp htokens
  have hopposite : opposite.Grammatical :=
    .neg rfl (.parens rfl (.negative rfl rfl) rfl) rfl (by decide)
  have htokens' : tokens "-(-9223372036854775808)" = opposite.tokens := by decide +kernel
  have hkinds' : ∀ t ∈ tokens "-(-9223372036854775808)", t.kind.IsArithmetic := by
    decide +kernel
  have hnot : ¬ opposite.Computable := fun h => absurd h.fits_exact (by decide +kernel)
  obtain ⟨-, -, hfails, -⟩ :=
    (arithmetic_exact (wellFormed_iff.mpr ⟨opposite, hopposite, htokens'⟩) hkinds').2 opposite
      hopposite htokens'
  refine ⟨⟨hp, htokens, hkinds, hok.mp ⟨_, hvalue⟩, by decide +kernel, ?_, ?_⟩, hopposite,
    htokens', hkinds', hnot, hfails hnot⟩
  · obtain ⟨a, ha, heq⟩ := hexact _ hvalue
    exact ⟨a, ha, hvalue.trans (congrArg _ heq)⟩
  · refine hmod least one _ ⟨-9223372036854775808, by decide, by decide⟩
      ⟨-1, by decide, by decide⟩ ?_ (by decide +kernel) (by decide +kernel) (by decide)
    simp [p, remainder, Phrase.subphrases]

end Innermost
