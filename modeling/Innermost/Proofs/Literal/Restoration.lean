import Innermost.Proofs.Literal.Substitution

/-!
A literal may be replaced by what stands in parentheses and has its value, wherever an
operand may begin.

* `TokenKind.endsOperand` tells the lexemes behind which no operand begins, and
  `Separated` that no `(` stands directly behind one of them. What is taken up is
  separated (`Means.separated`), and it stays so when the value of a group takes the place
  of the group (`Separated.replace`).
* `OperandMayFollow`: before a literal there is nothing that ends an operand. The sign of a
  negative literal is then not taken for an operation on what is before it, so that the
  literal is passed over or taken up as one (`Yields.passes_text`).
* `Yields.restores` goes through the rules with this, and `Means.restore` says so of all
  the lexemes.
-/

namespace Innermost

/-! ### Ends of operands -/

/-- Whether a token can be the last one of an operand. -/
def TokenKind.endsOperand : TokenKind → Bool
  | truth _ | integer | closing => true
  | _ => false

/-- No `(` stands directly behind the end of an operand. -/
def Separated (ls : List Lexeme) : Prop :=
  ls.IsChain fun l m => ¬ (l.kind.endsOperand = true ∧ m.kind = .opening)

instance : DecidablePred Separated := fun ls => inferInstanceAs (Decidable (ls.IsChain _))

/-- What is known of the lexemes that are taken up. -/
structure Joined (s : Stage) (taken : List Lexeme) : Prop where
  /-- An operand has a lexeme. -/
  ne_nil : s = .operand → taken ≠ []
  /-- Operators do not begin with `(`. -/
  head : s ≠ .operand → ∀ l ∈ taken.head?, l.kind ≠ .opening
  /-- The end is that of an operand. -/
  last : ∀ l ∈ taken.getLast?, l.kind.endsOperand = true
  separated : Separated taken

section Joined

variable {s : Stage} {floor : Nat} {x : Value} {ls ms : List Lexeme} {l : Lexeme}

lemma joined_nil (floor : Nat) (x : Value) : Joined (.operators floor x) [] where
  ne_nil h := nomatch h
  head _ _ h := nomatch h
  last _ h := nomatch h
  separated := .nil

lemma joined_singleton (hlast : l.kind.endsOperand = true) (hhead : l.kind ≠ .opening) :
    Joined s [l] where
  ne_nil _ := List.cons_ne_nil _ _
  head _ _ hm := Option.some.inj hm ▸ hhead
  last _ hm := Option.some.inj hm ▸ hlast
  separated := .singleton l

/-- Operators may come after what is taken up. -/
lemma Joined.append (hls : Joined s ls) (hms : Joined (.operators floor x) ms) :
    Joined s (ls ++ ms) where
  ne_nil h := List.append_ne_nil_of_left_ne_nil (hls.ne_nil h) ms
  head h l hl := by
    cases ls with
    | nil => exact hms.head (fun h => nomatch h) l hl
    | cons m ls => exact hls.head h l hl
  last l hl := by
    rw [List.getLast?_append] at hl
    obtain hl | ⟨-, hl⟩ := Option.or_eq_some_iff.mp hl
    · exact hms.last l hl
    · exact hls.last l hl
  separated := hls.separated.append hms.separated fun _ _ m hm h =>
    hms.head (fun h => nomatch h) m hm h.2

/-- An operand may come after any lexeme that does not end one. -/
lemma Joined.cons (hls : Joined .operand ls) (hl : l.kind.endsOperand = false)
    (hhead : s ≠ .operand → l.kind ≠ .opening) : Joined s (l :: ls) where
  ne_nil _ := List.cons_ne_nil _ _
  head h _ hm := Option.some.inj hm ▸ hhead h
  last m hm := by
    rw [List.getLast?_cons, List.getLast?_eq_some_getLast (hls.ne_nil rfl)] at hm
    exact hls.last m (by rw [List.getLast?_eq_some_getLast (hls.ne_nil rfl)]; exact hm)
  separated := List.isChain_cons.mpr ⟨fun m _ h => by simp [hl] at h, hls.separated⟩

end Joined

/-- What is taken up begins and ends as an operand does, or operators after one. -/
lemma Yields.joined {s : Stage} {ls rest : List Lexeme} {v : Value} (h : Yields s ls v rest) :
    ∃ taken, ls = taken ++ rest ∧ Joined s taken := by
  induction h with
  | @truth l rest b hl => exact ⟨[l], rfl, joined_singleton (by rw [hl]; rfl) (by simp [hl])⟩
  | @integer l rest n hl hn =>
      exact ⟨[l], rfl, joined_singleton (by rw [hl]; rfl) (by simp [hl])⟩
  | @negative l m rest n hl hm hn =>
      have hjoined : Joined .operand [m] := joined_singleton (by rw [hm]; rfl) (by simp [hm])
      exact ⟨[l, m], rfl, hjoined.cons (by rw [hl]; rfl) fun _ => by simp [hl]⟩
  | @parens l m _ _ rest x v hl hx hv hm ihx ihv =>
      obtain ⟨takenx, rfl, hjoinedx⟩ := ihx
      obtain ⟨takenv, rfl, hjoinedv⟩ := ihv
      have hclosing : Joined (.operators 0 v) [m] :=
        joined_singleton (by rw [hm]; rfl) (by simp [hm])
      exact ⟨l :: (takenx ++ (takenv ++ [m])), by simp,
        (hjoinedx.append (hjoinedv.append hclosing)).cons (by rw [hl]; rfl) fun h => absurd rfl h⟩
  | @not l _ rest x v hl hx hv ih | @neg l _ rest x v hl hx hv ih =>
      obtain ⟨taken, rfl, hjoined⟩ := ih
      exact ⟨l :: taken, rfl, hjoined.cons (by rw [hl]; rfl) fun h => absurd rfl h⟩
  | stop h => exact ⟨[], rfl, joined_nil _ _⟩
  | @apply floor x y z x' v l _ _ _ rest op hl hop hy hz hx hv ihy ihz ihv =>
      obtain ⟨takeny, rfl, hjoinedy⟩ := ihy
      obtain ⟨takenz, rfl, hjoinedz⟩ := ihz
      obtain ⟨takenv, rfl, hjoinedv⟩ := ihv
      exact ⟨l :: (takeny ++ (takenz ++ takenv)), by simp,
        (hjoinedy.append (hjoinedz.append hjoinedv)).cons (by rw [hl]; rfl) fun _ => by simp [hl]⟩

/-- Lexemes that have a value are separated. -/
lemma Means.separated {ls : List Lexeme} {v : Value} (h : Means ls v) : Separated ls := by
  obtain ⟨x, us, hx, hv⟩ := h
  obtain ⟨takenx, rfl, hjoinedx⟩ := hx.joined
  obtain ⟨takenv, rfl, hjoinedv⟩ := hv.joined
  rw [List.append_nil]
  exact (hjoinedx.append hjoinedv).separated

/-! ### Literals as operands -/

/-- What is taken up has one value and one end. -/
lemma Yields.unique {s : Stage} {ls rest rest' : List Lexeme} {v v' : Value}
    (h : Yields s ls v rest) (h' : Yields s ls v' rest') : v = v' ∧ rest = rest' := by
  let place : Span := .empty 0
  let ts : List Token := ls.map fun l => ⟨l.kind, place, l.text⟩
  have hts : ts.map Token.bare = ls := by
    rw [List.map_map]
    exact List.map_id ls
  have hfinds := Evaluation.finds_of_yields 0 h hts
  have hfinds' := Evaluation.finds_of_yields 0 h' hts
  cases s with
  | operand =>
      obtain ⟨x, us, hx, rfl, rfl⟩ := hfinds
      obtain ⟨x', us', hx', rfl, rfl⟩ := hfinds'
      cases hx.symm.trans hx'
      exact ⟨rfl, rfl⟩
  | operators floor w =>
      obtain ⟨x, us, hx, rfl, rfl⟩ := hfinds ⟨w, place⟩ rfl
      obtain ⟨x', us', hx', rfl, rfl⟩ := hfinds' ⟨w, place⟩ rfl
      cases hx.symm.trans hx'
      exact ⟨rfl, rfl⟩

/-- The literal of a value is one lexeme that is no parenthesis, or digits after a minus
sign. -/
lemma lexemes_text_cases (v : Value) :
    (∃ l, lexemes v.text.toList = [l] ∧ l.IsPlain) ∨
      ∃ l m, lexemes v.text.toList = [l, m] ∧ l.kind = .operator .sub ∧ m.kind = .integer := by
  cases v with
  | boolean b => exact .inl ⟨_, lexemes_boolean b, by simp [Lexeme.IsPlain]⟩
  | integer n =>
      have hlexemes := lexemes_number n
      split_ifs at hlexemes
      · exact .inr ⟨_, _, hlexemes, rfl, rfl⟩
      · exact .inl ⟨_, hlexemes, by simp [Lexeme.IsPlain]⟩

lemma joined_text (v : Value) : Joined .operand (lexemes v.text.toList) := by
  have h := yields_text v []
  rw [List.append_nil] at h
  obtain ⟨taken, htaken, hjoined⟩ := h.joined
  rw [List.append_nil] at htaken
  exact htaken ▸ hjoined

lemma isPlain_of_mem_text {v : Value} {l : Lexeme} (h : l ∈ lexemes v.text.toList) :
    l.IsPlain := by
  obtain ⟨m, hm, hplain⟩ | ⟨m, n, hmn, hm, hn⟩ := lexemes_text_cases v
  · rw [hm, List.mem_singleton] at h
    exact h ▸ hplain
  · rw [hmn, List.mem_pair] at h
    obtain rfl | rfl := h
    · simp [Lexeme.IsPlain, hm]
    · simp [Lexeme.IsPlain, hn]

/-- No operand ends inside a literal. -/
lemma endsOperand_of_text_eq_append {v : Value} {ls ms : List Lexeme}
    (h : lexemes v.text.toList = ls ++ ms) (hms : ms ≠ []) :
    ∀ l ∈ ls.getLast?, l.kind.endsOperand = false := by
  intro l hl
  obtain ⟨m, hm, -⟩ | ⟨m, n, hmn, hm, -⟩ := lexemes_text_cases v
  · rw [hm] at h
    obtain ⟨rfl, -⟩ | ⟨ls', rfl, hnil⟩ := List.cons_eq_append_iff.mp h
    · cases hl
    · exact absurd (List.append_eq_nil_iff.mp hnil.symm).2 hms
  · rw [hmn] at h
    obtain ⟨rfl, -⟩ | ⟨ls', rfl, hn⟩ := List.cons_eq_append_iff.mp h
    · cases hl
    · obtain ⟨rfl, -⟩ | ⟨ls₂, rfl, hnil⟩ := List.cons_eq_append_iff.mp hn
      · obtain rfl : m = l := Option.some.inj hl
        rw [hm]
        rfl
      · exact absurd (List.append_eq_nil_iff.mp hnil.symm).2 hms

/-! ### Restoration -/

/-- Whether what stands before some lexemes lets an operand begin there. -/
structure OperandMayFollow (s : Stage) (pre : List Lexeme) : Prop where
  /-- Only an operand begins at once. -/
  ne_nil : s ≠ .operand → pre ≠ []
  last : ∀ l ∈ pre.getLast?, l.kind.endsOperand = false

section Restores

variable {s : Stage} {pre body suf ls us ws rest : List Lexeme} {l m : Lexeme}
  {x y z x' v w : Value} {floor : Nat} {op : BinaryOp}

lemma OperandMayFollow.of_cons (h : OperandMayFollow s (l :: pre)) :
    OperandMayFollow .operand pre where
  ne_nil h' := absurd rfl h'
  last m hm := h.last m (by rw [List.getLast?_cons, hm]; rfl)

/-- What begins where an operand may begin, and ends in front of an operand, has not come to
the end of one. -/
lemma OperandMayFollow.of_append {taken pre' : List Lexeme}
    (h : OperandMayFollow s (taken ++ pre')) (htaken : Joined s taken) (floor : Nat) (x : Value) :
    OperandMayFollow (.operators floor x) pre' where
  ne_nil _ := by
    rintro rfl
    rw [List.append_nil] at h
    have hne : taken ≠ [] := by
      by_cases hs : s = .operand
      · exact htaken.ne_nil hs
      · exact h.ne_nil hs
    have hlast := List.getLast?_eq_some_getLast hne
    exact absurd (htaken.last _ hlast) (by simp [h.last _ hlast])
  last l hl := h.last l (by rw [List.getLast?_append, hl]; rfl)

/-- No literal is cut in two: a cut inside it would be behind a minus sign, where no operand
ends. -/
lemma Yields.length_le_of_lt (h : Yields s (pre ++ (lexemes w.text.toList ++ suf)) v us)
    (hlen : suf.length < us.length) : (lexemes w.text.toList ++ suf).length ≤ us.length := by
  by_contra hlt
  obtain ⟨taken, htaken, hjoined⟩ := h.joined
  obtain ⟨ls, hls⟩ : us <:+ lexemes w.text.toList ++ suf :=
    List.suffix_of_suffix_length_le h.suffix (List.suffix_append _ _) (by omega)
  obtain ⟨ms, rfl⟩ : suf <:+ us :=
    List.suffix_of_suffix_length_le (List.suffix_append _ _) (hls ▸ List.suffix_append ls us)
      hlen.le
  have htext : lexemes w.text.toList = ls ++ ms := by
    rw [← List.append_assoc] at hls
    exact (List.append_cancel_right hls).symm
  have hls_ne : ls ≠ [] := by
    rintro rfl
    rw [← hls] at hlt
    exact hlt le_rfl
  have hms_ne : ms ≠ [] := by
    rintro rfl
    exact absurd hlen (Nat.lt_irrefl _)
  obtain rfl : taken = pre ++ ls := by
    rw [← hls, ← List.append_assoc] at htaken
    exact (List.append_cancel_right htaken).symm
  have hlast := List.getLast?_eq_some_getLast hls_ne
  have hends := hjoined.last _ (by rw [List.getLast?_append, hlast]; rfl)
  rw [endsOperand_of_text_eq_append htext hms_ne _ hlast] at hends
  cases hends

/-- What ends before the last lexeme of a literal, with an operand to follow, ends before
the first one. -/
lemma Yields.passes_text (h : Yields s (pre ++ (lexemes w.text.toList ++ suf)) v us)
    (hpre : OperandMayFollow s pre) (hlen : suf.length < us.length) (floor : Nat) (x : Value) :
    ∃ pre', us = pre' ++ (lexemes w.text.toList ++ suf) ∧
      OperandMayFollow (.operators floor x) pre' ∧
      ∀ ls, s.Rests (pre' ++ ls) → Yields s (pre ++ ls) v (pre' ++ ls) := by
  obtain ⟨pre', rfl, h'⟩ := h.passes (h.length_le_of_lt hlen)
  obtain ⟨taken, htaken, hjoined⟩ := h.joined
  obtain rfl : pre = taken ++ pre' := by
    rw [← List.append_assoc taken] at htaken
    exact List.append_cancel_right htaken
  exact ⟨pre', rfl, hpre.of_append hjoined floor x, h'⟩

/-- Where a literal is reached, what has its value may stand in its place. -/
def Restores (body suf : List Lexeme) (w : Value) (s : Stage) (ls : List Lexeme) (v : Value)
    (rest : List Lexeme) : Prop :=
  ∀ pre, ls = pre ++ (lexemes w.text.toList ++ suf) → rest.length ≤ suf.length →
    OperandMayFollow s pre → Yields s (pre ++ (bracketed body ++ suf)) v rest

/-- A literal that is taken up at once is taken up as an operand. -/
lemma yields_of_text (hgroup : Yields .operand (bracketed body) w [])
    (h : Yields .operand ls v rest) (hls : ls = lexemes w.text.toList ++ suf) :
    Yields .operand (bracketed body ++ suf) v rest := by
  subst hls
  obtain ⟨rfl, rfl⟩ := h.unique (yields_text w suf)
  exact Yields.frame (by rwa [List.append_nil]) trivial

/-- The literal is not behind the end. -/
lemma not_length_le_of_text (w : Value) (pre suf : List Lexeme) :
    ¬ (pre ++ (lexemes w.text.toList ++ suf)).length ≤ suf.length := by
  have := List.length_pos_of_ne_nil ((joined_text w).ne_nil rfl)
  simp only [List.length_append]
  omega

/-- One lexeme that is taken up is the literal, if the literal is reached. -/
lemma restores_single (hgroup : Yields .operand (bracketed body) w [])
    (h : Yields .operand (l :: rest) v rest) : Restores body suf w .operand (l :: rest) v rest := by
  intro pre hls hlen _
  cases pre with
  | nil => exact yields_of_text hgroup h hls
  | cons l' pre =>
      rw [(List.cons.inj hls).2] at hlen
      exact absurd hlen (not_length_le_of_text w pre suf)

/-- Digits after a minus sign are the literal, if the literal is reached. -/
lemma restores_negative {n : Number} (hgroup : Yields .operand (bracketed body) w [])
    (hl : l.kind = .operator .sub) (hm : m.kind = .integer) (hn : n.val = -m.number) :
    Restores body suf w .operand (l :: m :: rest) (.integer n) rest := by
  intro pre hls hlen hpre
  match pre with
  | [] => exact yields_of_text hgroup (.negative hl hm hn) hls
  | [l'] =>
      obtain ⟨rfl, hrest⟩ := List.cons.inj hls
      have hrest : m :: rest = lexemes w.text.toList ++ suf := hrest
      have htext := yields_text w suf
      rw [← hrest] at htext
      cases htext with
      | truth hm' | negative hm' | parens hm' | not hm' | neg hm' =>
          rw [hm] at hm'
          cases hm'
      | @integer _ _ k _ hk =>
          have hneg : UnaryOp.neg.eval (.integer k) = .ok (.integer n) := by
            rw [UnaryOp.eval, fitting_eq_ok_iff]
            exact ⟨n, Number.ofInt?_eq_some_iff.mpr (by rw [hn, hk]), rfl⟩
          have hoperand := yields_of_text hgroup (.integer hm hk) hrest
          exact .neg hl hoperand hneg
  | l' :: m' :: pre =>
      rw [(List.cons.inj (List.cons.inj hls).2).2] at hlen
      exact absurd hlen (not_length_le_of_text w pre suf)

/-- The literal stands behind the operator of one operand, or begins with it. -/
lemma restores_unary (hgroup : Yields .operand (bracketed body) w [])
    (hv : ∀ {ls'}, Yields .operand ls' x rest → Yields .operand (l :: ls') v rest)
    (hx : Yields .operand ls x rest) (ih : Restores body suf w .operand ls x rest) :
    Restores body suf w .operand (l :: ls) v rest := by
  intro pre hls hlen hpre
  cases pre with
  | nil => exact yields_of_text hgroup (hv hx) hls
  | cons l' pre =>
      obtain ⟨rfl, rfl⟩ := List.cons.inj hls
      exact hv (ih pre rfl hlen hpre.of_cons)

/-- The literal stands in the parentheses: in the operand or behind the operators after
that. -/
lemma restores_parens (hgroup : Yields .operand (bracketed body) w []) (hl : l.kind = .opening)
    (hx : Yields .operand ls x us) (hv : Yields (.operators 0 x) us v (m :: rest))
    (hm : m.kind = .closing) (ihx : Restores body suf w .operand ls x us)
    (ihv : Restores body suf w (.operators 0 x) us v (m :: rest)) :
    Restores body suf w .operand (l :: ls) v rest := by
  intro pre hls hlen hpre
  cases pre with
  | nil => exact yields_of_text hgroup (.parens hl hx hv hm) hls
  | cons l' pre =>
      obtain ⟨rfl, rfl⟩ := List.cons.inj hls
      have hpre := hpre.of_cons
      by_cases hreach : us.length ≤ suf.length
      · exact .parens hl (ihx pre rfl hreach hpre) hv hm
      · obtain ⟨pre', rfl, hpre', hx'⟩ := hx.passes_text hpre (Nat.lt_of_not_le hreach) 0 x
        -- the `)` at the end stands behind the literal
        have hreach' : (m :: rest).length ≤ suf.length := by
          by_contra hlt
          obtain ⟨pre₂, heq, hpre₂, -⟩ := hv.passes_text hpre' (Nat.lt_of_not_le hlt) 0 x
          cases pre₂ with
          | nil => exact absurd rfl (hpre₂.ne_nil fun h => nomatch h)
          | cons m' pre₂ =>
              rw [(List.cons.inj heq).2] at hlen
              exact not_length_le_of_text w pre₂ suf hlen
        exact .parens hl (hx' _ trivial) (ihv pre' rfl hreach' hpre') hm

/-- The literal stands in the right operand, behind the operators of a greater rank
after it, or behind those after the operation. -/
lemma restores_apply (hl : l.kind = .operator op) (hop : floor ≤ op.rank)
    (hy : Yields .operand ls y us) (hz : Yields (.operators (op.rank + 1) y) us z ws)
    (hx : op.eval x z = .ok x') (hv : Yields (.operators floor x') ws v rest)
    (ihy : Restores body suf w .operand ls y us)
    (ihz : Restores body suf w (.operators (op.rank + 1) y) us z ws)
    (ihv : Restores body suf w (.operators floor x') ws v rest) :
    Restores body suf w (.operators floor x) (l :: ls) v rest := by
  intro pre hls hlen hpre
  cases pre with
  | nil => exact absurd rfl (hpre.ne_nil fun h => nomatch h)
  | cons l' pre =>
      obtain ⟨rfl, rfl⟩ := List.cons.inj hls
      have hpre := hpre.of_cons
      by_cases hreachy : us.length ≤ suf.length
      · exact .apply hl hop (ihy pre rfl hreachy hpre) hz hx hv
      · obtain ⟨pre₂, rfl, hpre₂, hy'⟩ :=
          hy.passes_text hpre (Nat.lt_of_not_le hreachy) (op.rank + 1) y
        by_cases hreachz : ws.length ≤ suf.length
        · exact .apply hl hop (hy' _ trivial) (ihz pre₂ rfl hreachz hpre₂) hx hv
        · obtain ⟨pre₃, rfl, hpre₃, hz'⟩ :=
            hz.passes_text hpre₂ (Nat.lt_of_not_le hreachz) floor x'
          -- something stands before the literal, on which the operators have stopped
          have hrests : Rests (op.rank + 1) (pre₃ ++ (bracketed body ++ suf)) :=
            Rests.append hz.rests fun hnil => absurd hnil (hpre₃.ne_nil fun h => nomatch h)
          exact .apply hl hop (hy' _ trivial) (hz' _ hrests) hx (ihv pre₃ rfl hlen hpre₃)

/-- **A literal may be replaced by a group of its value**, wherever an operand may begin. -/
theorem Yields.restores (h : Yields s ls v rest) (hgroup : Yields .operand (bracketed body) w [])
    (suf : List Lexeme) : Restores body suf w s ls v rest := by
  induction h with
  | stop =>
      rintro pre rfl hlen
      exact absurd hlen (not_length_le_of_text w pre suf)
  | truth hl => exact restores_single hgroup (.truth hl)
  | integer hl hn => exact restores_single hgroup (.integer hl hn)
  | negative hl hm hn => exact restores_negative hgroup hl hm hn
  | not hl hx hv ih => exact restores_unary hgroup (fun h => .not hl h hv) hx ih
  | neg hl hx hv ih => exact restores_unary hgroup (fun h => .neg hl h hv) hx ih
  | parens hl hx hv hm ihx ihv => exact restores_parens hgroup hl hx hv hm ihx ihv
  | apply hl hop hy hz hx hv ihy ihz ihv => exact restores_apply hl hop hy hz hx hv ihy ihz ihv

end Restores

/-! ### All the lexemes -/

section All

variable {pre body suf ls : List Lexeme} {v w : Value}

/-- Lexemes have one value at most. -/
lemma Means.unique (h : Means ls v) (h' : Means ls w) : v = w := by
  obtain ⟨x, us, hx, hv⟩ := h
  obtain ⟨x', us', hx', hv'⟩ := h'
  obtain ⟨rfl, rfl⟩ := hx.unique hx'
  exact (hv.unique hv').1

/-- A group without groups inside it that has a value is one operand. -/
lemma Means.yields_bracketed (h : Means (bracketed body) w) (hbody : ∀ l ∈ body, l.IsPlain) :
    Yields .operand (bracketed body) w [] := by
  obtain ⟨x, us, hx, hv⟩ := h
  have hreplaced := hx.replaced_group (List.append_nil _).symm hbody
  obtain rfl : us = [] := List.length_eq_zero_iff.mp (Nat.le_zero.mp hreplaced.rest_le)
  obtain ⟨rfl, -⟩ := hv.unique (.stop (rests_nil 0))
  exact hx

/-- **The literal of a value may be replaced by a group of this value**, if what stands
before it does not end an operand. -/
theorem Means.restore (h : Means (pre ++ (lexemes w.text.toList ++ suf)) v)
    (hw : Means (bracketed body) w) (hbody : ∀ l ∈ body, l.IsPlain)
    (hpre : ∀ l ∈ pre.getLast?, l.kind.endsOperand = false) :
    Means (pre ++ (bracketed body ++ suf)) v := by
  have hall : bracketed (pre ++ (lexemes w.text.toList ++ suf)) =
      (.opening :: pre) ++ (lexemes w.text.toList ++ (suf ++ [.closing])) := by
    simp [bracketed]
  have hmay : OperandMayFollow .operand (.opening :: pre) := by
    refine ⟨fun h => absurd rfl h, fun l hl => ?_⟩
    rw [List.getLast?_cons] at hl
    cases hlast : pre.getLast? with
    | none =>
        rw [hlast] at hl
        rw [← Option.some.inj hl]
        rfl
    | some m =>
        rw [hlast] at hl
        rw [← Option.some.inj hl]
        exact hpre m hlast
  have hrestored := (means_iff_bracketed.mp h).restores (hw.yields_bracketed hbody)
    (suf ++ [.closing]) _ hall (Nat.zero_le _) hmay
  refine means_iff_bracketed.mpr ?_
  simpa [bracketed] using hrestored

lemma getLast?_bracketed (body : List Lexeme) : (bracketed body).getLast? = some .closing := by
  rw [bracketed, List.getLast?_cons, List.getLast?_append]
  rfl

/-- Before a group in separated lexemes, an operand may begin. -/
lemma Separated.endsOperand_eq_false (h : Separated (pre ++ (bracketed body ++ suf))) :
    ∀ l ∈ pre.getLast?, l.kind.endsOperand = false := by
  intro l hl
  have hne := (List.isChain_append.mp h).2.2 l hl .opening rfl
  simpa [Lexeme.opening] using hne

/-- The literal of a value is as far from other operands as a group is. -/
lemma Separated.replace (h : Separated (pre ++ (bracketed body ++ suf))) (w : Value) :
    Separated (pre ++ (lexemes w.text.toList ++ suf)) := by
  obtain ⟨hpre, hgroup, -⟩ := List.isChain_append.mp h
  obtain ⟨-, hsuf, hbehind⟩ := List.isChain_append.mp hgroup
  have hliteral : Separated (lexemes w.text.toList ++ suf) := by
    refine (joined_text w).separated.append hsuf fun l hl m hm hlm => ?_
    exact hbehind .closing (getLast?_bracketed body) m hm ⟨rfl, hlm.2⟩
  refine hpre.append hliteral fun _ _ m hm hlm => ?_
  rw [List.head?_append, Option.mem_def, Option.or_eq_some_iff] at hm
  obtain hm | ⟨hnil, -⟩ := hm
  · exact (isPlain_of_mem_text (List.mem_of_head? hm)).1 hlm.2
  · exact (joined_text w).ne_nil rfl (List.head?_eq_none_iff.mp hnil)

/-- Lexemes in parentheses are as far from each other as without. -/
lemma Separated.enclosed (h : Separated ls) : Separated (bracketed ls) := by
  have hclosing : Separated (ls ++ [.closing]) := by
    refine h.append (.singleton _) fun _ _ m hm hlm => ?_
    rw [← Option.some.inj hm] at hlm
    cases hlm.2
  exact List.isChain_cons.mpr ⟨fun _ _ hlm => absurd hlm.1 (by decide), hclosing⟩

end All

end Innermost
