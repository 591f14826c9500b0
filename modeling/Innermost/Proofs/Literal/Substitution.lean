import Innermost.Proofs.Literal.Derivation

/-!
What stands in parentheses may be replaced by its value.

* `Yields.frame`: what is taken up comes to the same value in front of any other
  lexemes that the operators leave alone.
* `Yields.balance`: as many parentheses are opened as are closed.
* `Yields.stays`: lexemes without parentheses are not left through a `)`.
* `Yields.replaces`: a derivation that takes up `(` and `)` around lexemes without
  parentheses takes them up as one operand, and takes up the literal of its value
  just as well. After a minus sign this literal may become a part of another one,
  which does not matter.
* `Means.replace` says so of all the lexemes.
-/

namespace Innermost

/-! ### What is left -/

/-- Whether the lexemes `ls` may be left in place after this. -/
def Stage.Rests : Stage → List Lexeme → Prop
  | .operand, _ => True
  | .operators floor _, ls => Innermost.Rests floor ls

/-- Only the first lexeme matters. -/
lemma Rests.append {floor : Nat} {taken rest ls : List Lexeme} (h : Rests floor (taken ++ rest))
    (hls : taken = [] → Rests floor ls) : Rests floor (taken ++ ls) := by
  cases taken with
  | nil => exact hls rfl
  | cons l taken => exact h

lemma Yields.rests {s : Stage} {ls rest : List Lexeme} {v : Value} (h : Yields s ls v rest) :
    s.Rests rest := by
  induction h with
  | stop h => exact h
  | apply _ _ _ _ _ _ _ _ ih => exact ih
  | _ => trivial

/-! ### The frame -/

/-- What is taken up can be taken up in front of other lexemes as well. -/
lemma Yields.exists_taken {s : Stage} {ls rest : List Lexeme} {v : Value}
    (h : Yields s ls v rest) :
    ∃ taken, ls = taken ++ rest ∧ ∀ ls', s.Rests ls' → Yields s (taken ++ ls') v ls' := by
  induction h with
  | @truth l rest b hl => exact ⟨[l], rfl, fun _ _ => .truth hl⟩
  | @integer l rest n hl hn => exact ⟨[l], rfl, fun _ _ => .integer hl hn⟩
  | @negative l m rest n hl hm hn => exact ⟨[l, m], rfl, fun _ _ => .negative hl hm hn⟩
  | @parens l m _ _ rest x v hl hx hv hm ihx ihv =>
      obtain ⟨takenx, rfl, hx'⟩ := ihx
      obtain ⟨takenv, rfl, hv'⟩ := ihv
      refine ⟨l :: (takenx ++ (takenv ++ [m])), by simp, fun ls' _ => ?_⟩
      have hmls : Rests 0 (m :: ls') := rests_cons (by simp [hm]) 0 ls'
      have hparens := Yields.parens hl (hx' _ trivial) (hv' _ hmls) hm
      simpa using hparens
  | @not l _ rest x v hl hx hv ih =>
      obtain ⟨taken, rfl, hx'⟩ := ih
      exact ⟨l :: taken, rfl, fun ls' _ => .not hl (hx' ls' trivial) hv⟩
  | @neg l _ rest x v hl hx hv ih =>
      obtain ⟨taken, rfl, hx'⟩ := ih
      exact ⟨l :: taken, rfl, fun ls' _ => .neg hl (hx' ls' trivial) hv⟩
  | stop h => exact ⟨[], rfl, fun _ h' => .stop h'⟩
  | @apply floor x y z x' v l _ _ _ rest op hl hop hy hz hx hv ihy ihz ihv =>
      obtain ⟨takeny, rfl, hy'⟩ := ihy
      obtain ⟨takenz, rfl, hz'⟩ := ihz
      obtain ⟨takenv, rfl, hv'⟩ := ihv
      refine ⟨l :: (takeny ++ (takenz ++ takenv)), by simp, fun ls' h' => ?_⟩
      -- what the operators of a greater rank leave is left in place by this one's
      have hrests : Rests (op.rank + 1) (takenv ++ ls') :=
        Rests.append hz.rests fun _ => Rests.mono h' (by omega)
      have happly := Yields.apply hl hop (hy' _ trivial) (hz' _ hrests) hx (hv' ls' h')
      simpa using happly

/-- **The frame**: other lexemes may follow, as far as the operators leave them
alone. -/
lemma Yields.frame {s : Stage} {taken rest ls : List Lexeme} {v : Value}
    (h : Yields s (taken ++ rest) v rest) (hls : s.Rests ls) : Yields s (taken ++ ls) v ls := by
  obtain ⟨taken', htaken, h'⟩ := h.exists_taken
  rw [List.append_cancel_right htaken]
  exact h' ls hls

/-! ### Parentheses -/

/-- The number of parentheses that are opened. -/
def openings (ls : List Lexeme) : Nat := ls.countP fun l => l.kind = .opening

/-- The number of parentheses that are closed. -/
def closings (ls : List Lexeme) : Nat := ls.countP fun l => l.kind = .closing

@[simp] lemma openings_append (ls ms : List Lexeme) :
    openings (ls ++ ms) = openings ls + openings ms := List.countP_append

@[simp] lemma closings_append (ls ms : List Lexeme) :
    closings (ls ++ ms) = closings ls + closings ms := List.countP_append

/-- As many parentheses are opened as are closed. -/
lemma Yields.balance {s : Stage} {ls rest : List Lexeme} {v : Value} (h : Yields s ls v rest) :
    openings ls + closings rest = closings ls + openings rest := by
  induction h with
  | truth hl | integer hl _ => simp [openings, closings, hl, Nat.add_comm]
  | negative hl hm _ => simp [openings, closings, hl, hm, Nat.add_comm]
  | parens hl _ _ hm ihx ihv =>
      simp only [openings, closings, List.countP_cons, hl, hm] at ihx ihv ⊢
      simp at ihv ⊢
      omega
  | not hl _ _ ih | neg hl _ _ ih => simpa [openings, closings, hl] using ih
  | stop => exact Nat.add_comm _ _
  | apply hl _ _ _ _ _ ihy ihz ihv =>
      simp only [openings, closings, List.countP_cons, hl] at ihy ihz ihv ⊢
      simp
      omega

/-- A lexeme that is no parenthesis. -/
def Lexeme.IsPlain (l : Lexeme) : Prop := l.kind ≠ .opening ∧ l.kind ≠ .closing

/-- The lexemes of a group, from those inside it. -/
def bracketed (body : List Lexeme) : List Lexeme := .opening :: (body ++ [.closing])

lemma bracketed_append (body suf : List Lexeme) :
    bracketed body ++ suf = .opening :: (body ++ .closing :: suf) := by simp [bracketed]

@[simp] lemma openings_bracketed (body : List Lexeme) :
    openings (bracketed body) = openings body + 1 := by
  simp [openings, bracketed, Lexeme.opening, Lexeme.closing]

@[simp] lemma closings_bracketed (body : List Lexeme) :
    closings (bracketed body) = closings body + 1 := by
  simp [closings, bracketed, Lexeme.opening, Lexeme.closing]

/-- A lexeme in front of a `)` is that `)` or stands before it. -/
lemma cons_eq_append_closing {l : Lexeme} {ls body suf : List Lexeme}
    (h : l :: ls = body ++ .closing :: suf) (hl : l.kind ≠ .closing) :
    ∃ body', body = l :: body' ∧ ls = body' ++ .closing :: suf := by
  cases body with
  | nil => exact absurd (congrArg Lexeme.kind (List.cons.inj h).1) hl
  | cons m body =>
      obtain ⟨rfl, rfl⟩ := List.cons.inj h
      exact ⟨body, rfl, rfl⟩

/-- What begins among lexemes that open nothing ends no later than at the `)`
after them. -/
lemma Yields.stays {s : Stage} {ls rest suf : List Lexeme} {v : Value} (h : Yields s ls v rest)
    {body : List Lexeme} (hls : ls = body ++ .closing :: suf)
    (hbody : ∀ l ∈ body, l.kind ≠ .opening) :
    ∃ body', body' <:+ body ∧ rest = body' ++ .closing :: suf := by
  induction h generalizing body with
  | stop => exact ⟨body, List.suffix_rfl, hls⟩
  | truth hl | integer hl _ =>
      obtain ⟨body', rfl, rfl⟩ := cons_eq_append_closing hls (by simp [hl])
      exact ⟨body', List.suffix_cons _ _, rfl⟩
  | negative hl hm _ =>
      obtain ⟨body₁, rfl, hls₁⟩ := cons_eq_append_closing hls (by simp [hl])
      obtain ⟨body', rfl, rfl⟩ := cons_eq_append_closing hls₁ (by simp [hm])
      exact ⟨body', (List.suffix_cons _ _).trans (List.suffix_cons _ _), rfl⟩
  | parens hl _ _ _ _ _ =>
      obtain ⟨body', rfl, -⟩ := cons_eq_append_closing hls (by simp [hl])
      exact absurd hl (hbody _ List.mem_cons_self)
  | not hl _ _ ih | neg hl _ _ ih =>
      obtain ⟨body₁, rfl, hls₁⟩ := cons_eq_append_closing hls (by simp [hl])
      obtain ⟨body', hsuf, hrest⟩ := ih hls₁ fun l hl => hbody l (.tail _ hl)
      exact ⟨body', hsuf.trans (List.suffix_cons _ _), hrest⟩
  | apply hl _ _ _ _ _ ihy ihz ihv =>
      obtain ⟨body₁, rfl, hls₁⟩ := cons_eq_append_closing hls (by simp [hl])
      have hbody₁ : ∀ l ∈ body₁, l.kind ≠ .opening := fun l hl => hbody l (.tail _ hl)
      obtain ⟨body₂, hsuf₂, hus⟩ := ihy hls₁ hbody₁
      have hbody₂ : ∀ l ∈ body₂, l.kind ≠ .opening := fun l hl => hbody₁ l (hsuf₂.subset hl)
      obtain ⟨body₃, hsuf₃, hws⟩ := ihz hus hbody₂
      have hbody₃ : ∀ l ∈ body₃, l.kind ≠ .opening := fun l hl => hbody₂ l (hsuf₃.subset hl)
      obtain ⟨body', hsuf', hrest⟩ := ihv hws hbody₃
      exact ⟨body', ((hsuf'.trans hsuf₃).trans hsuf₂).trans (List.suffix_cons _ _), hrest⟩

/-! ### Literals of values -/

/-- The literal of a value is an operand of this value. -/
lemma yields_text (v : Value) (rest : List Lexeme) :
    Yields .operand (lexemes v.text.toList ++ rest) v rest := by
  cases v with
  | boolean b =>
      rw [lexemes_boolean]
      exact .truth rfl
  | integer n =>
      have hnumber : (⟨.integer, n.val.natAbs.repr⟩ : Lexeme).number = n.val.natAbs :=
        congrArg Int.ofNat (ofDigitChars_repr _)
      rw [Value.text, lexemes_number]
      split_ifs with hneg
      · exact .negative rfl rfl (by rw [hnumber]; omega)
      · exact .integer rfl (by rw [hnumber]; omega)

/-! ### Replacement -/

/-- What is in front of a group, unless it is the group itself, begins with the
lexeme that is taken up first. -/
lemma cons_eq_append_bracketed {l : Lexeme} {ls pre body suf : List Lexeme}
    (h : l :: ls = pre ++ (bracketed body ++ suf)) (hl : l.kind ≠ .opening) :
    ∃ pre', pre = l :: pre' ∧ ls = pre' ++ (bracketed body ++ suf) := by
  cases pre with
  | nil => exact absurd (congrArg Lexeme.kind (List.cons.inj h).1) hl
  | cons m pre =>
      obtain ⟨rfl, rfl⟩ := List.cons.inj h
      exact ⟨pre, rfl, rfl⟩

lemma Yields.suffix {s : Stage} {ls rest : List Lexeme} {v : Value} (h : Yields s ls v rest) :
    rest <:+ ls := by
  obtain ⟨taken, rfl, -⟩ := h.exists_taken
  exact List.suffix_append taken rest

/-- What ends before some lexemes, or right in front of them, is the same in front
of any others. -/
lemma Yields.passes {s : Stage} {pre group rest : List Lexeme} {v : Value}
    (h : Yields s (pre ++ group) v rest) (hlen : group.length ≤ rest.length) :
    ∃ pre', rest = pre' ++ group ∧
      ∀ ls, s.Rests (pre' ++ ls) → Yields s (pre ++ ls) v (pre' ++ ls) := by
  obtain ⟨taken, htaken, h'⟩ := h.exists_taken
  have hsuf : group <:+ rest :=
    List.suffix_of_suffix_length_le (List.suffix_append pre group) h.suffix hlen
  obtain ⟨pre', rfl⟩ := hsuf
  refine ⟨pre', rfl, fun ls hls => ?_⟩
  have hpre : pre = taken ++ pre' := by
    rw [← List.append_assoc] at htaken
    exact List.append_cancel_right htaken
  rw [hpre, List.append_assoc]
  exact h' _ hls

/-- Operators stop in front of a group. -/
lemma Yields.eq_of_bracketed {floor : Nat} {x v : Value} {body suf rest : List Lexeme}
    (h : Yields (.operators floor x) (bracketed body ++ suf) v rest) :
    rest = bracketed body ++ suf := by
  rw [bracketed_append] at h ⊢
  cases h with
  | stop => rfl
  | apply hl => cases hl

/-- What the replacement of a group inside lexemes leads to: the group has a value
`w`, and its literal may stand in its place. -/
structure Replaced (s : Stage) (pre body suf : List Lexeme) (v : Value) (rest : List Lexeme)
    (w : Value) : Prop where
  group : Yields .operand (bracketed body) w []
  whole : Yields s (pre ++ (lexemes w.text.toList ++ suf)) v rest
  rest_le : rest.length ≤ suf.length

/-- A group that is taken up as an operand may be replaced by its literal. -/
lemma Yields.replaced_group {ls body suf rest : List Lexeme} {v : Value}
    (h : Yields .operand ls v rest) (hls : ls = bracketed body ++ suf)
    (hbody : ∀ l ∈ body, l.IsPlain) : Replaced .operand [] body suf v rest v := by
  rw [bracketed_append] at hls
  cases h with
  | truth hl | integer hl | negative hl | not hl | neg hl =>
      rw [(List.cons.inj hls).1] at hl
      cases hl
  | @parens _ m _ us _ x _ hl hx hv hm =>
      obtain ⟨rfl, rfl⟩ := List.cons.inj hls
      obtain ⟨body₁, hsuf₁, rfl⟩ := hx.stays rfl fun l hl => (hbody l hl).1
      obtain ⟨body₂, hsuf₂, hrest⟩ := hv.stays rfl fun l hl => (hbody l (hsuf₁.subset hl)).1
      cases body₂ with
      | cons l body₂ =>
          obtain ⟨rfl, -⟩ := List.cons.inj hrest
          exact absurd hm (hbody _ (hsuf₁.subset (hsuf₂.subset List.mem_cons_self))).2
      | nil =>
          obtain ⟨rfl, rfl⟩ := List.cons.inj hrest
          have hgroup : Yields .operand (bracketed body ++ rest) v rest := by
            rw [bracketed_append]
            exact .parens hl hx hv hm
          have hframe : Yields .operand (bracketed body ++ []) v [] := hgroup.frame trivial
          rw [List.append_nil] at hframe
          exact ⟨hframe, yields_text v rest, le_rfl⟩

lemma ne_append_of_length_lt {rest group : List Lexeme} (h : rest.length < group.length)
    (pre : List Lexeme) : rest ≠ pre ++ group := by
  rintro rfl
  rw [List.length_append] at h
  omega

/-- Wherever the group begins in the lexemes `ls`, if it is reached, then it may be
replaced by its literal. -/
def Replaces (body suf : List Lexeme) (s : Stage) (ls : List Lexeme) (v : Value)
    (rest : List Lexeme) : Prop :=
  ∀ pre, ls = pre ++ (bracketed body ++ suf) → rest.length < (bracketed body ++ suf).length →
    ∃ w, Replaced s pre body suf v rest w

section Replaces

variable {body suf ls us ws rest : List Lexeme} {l m : Lexeme} {x y z x' v : Value} {floor : Nat}
  {op : BinaryOp}

/-- The group stands before a parenthesis, is opened by it, or stands inside it: in
the operand or behind the operators after that. -/
lemma replaces_parens (hbody : ∀ l ∈ body, l.IsPlain) (hl : l.kind = .opening)
    (hx : Yields .operand ls x us) (hv : Yields (.operators 0 x) us v (m :: rest))
    (hm : m.kind = .closing) (ihx : Replaces body suf .operand ls x us)
    (ihv : Replaces body suf (.operators 0 x) us v (m :: rest)) :
    Replaces body suf .operand (l :: ls) v rest := by
  intro pre hls hlen
  cases pre with
  | nil => exact ⟨v, (Yields.parens hl hx hv hm).replaced_group hls hbody⟩
  | cons l' pre =>
      obtain ⟨rfl, rfl⟩ := List.cons.inj hls
      by_cases hreach : us.length < (bracketed body ++ suf).length
      · obtain ⟨w, hw⟩ := ihx pre rfl hreach
        have hus := hw.rest_le
        have hrest := hv.length_le
        rw [List.length_cons] at hrest
        exact ⟨w, hw.group, .parens hl hw.whole hv hm, by omega⟩
      · obtain ⟨pre', rfl, hx'⟩ := hx.passes (Nat.le_of_not_lt hreach)
        -- the `)` at the end stands behind the group
        have hreach' : (m :: rest).length < (bracketed body ++ suf).length := by
          by_contra hle
          obtain ⟨pre₂, heq, -⟩ := hv.passes (Nat.le_of_not_lt hle)
          obtain ⟨pre₃, -, hrest⟩ := cons_eq_append_bracketed heq (by simp [hm])
          exact ne_append_of_length_lt hlen pre₃ hrest
        obtain ⟨w, hw⟩ := ihv pre' rfl hreach'
        have hrest := hw.rest_le
        rw [List.length_cons] at hrest
        exact ⟨w, hw.group, .parens hl (hx' _ trivial) hw.whole hm, by omega⟩

/-- The group stands in the right operand, behind the operators of a greater rank
after it, or behind those after the operation. -/
lemma replaces_apply (hl : l.kind = .operator op) (hop : floor ≤ op.rank)
    (hy : Yields .operand ls y us) (hz : Yields (.operators (op.rank + 1) y) us z ws)
    (hx : op.eval x z = .ok x') (hv : Yields (.operators floor x') ws v rest)
    (ihy : Replaces body suf .operand ls y us)
    (ihz : Replaces body suf (.operators (op.rank + 1) y) us z ws)
    (ihv : Replaces body suf (.operators floor x') ws v rest) :
    Replaces body suf (.operators floor x) (l :: ls) v rest := by
  intro pre hls hlen
  obtain ⟨pre', rfl, rfl⟩ := cons_eq_append_bracketed hls (by simp [hl])
  have hrest := hv.length_le
  by_cases hreachy : us.length < (bracketed body ++ suf).length
  · obtain ⟨w, hw⟩ := ihy pre' rfl hreachy
    have hus := hw.rest_le
    have hws := hz.length_le
    exact ⟨w, hw.group, .apply hl hop hw.whole hz hx hv, by omega⟩
  · obtain ⟨pre₂, rfl, hy'⟩ := hy.passes (Nat.le_of_not_lt hreachy)
    by_cases hreachz : ws.length < (bracketed body ++ suf).length
    · obtain ⟨w, hw⟩ := ihz pre₂ rfl hreachz
      have hws := hw.rest_le
      exact ⟨w, hw.group, .apply hl hop (hy' _ trivial) hw.whole hx hv, by omega⟩
    · obtain ⟨pre₃, rfl, hz'⟩ := hz.passes (Nat.le_of_not_lt hreachz)
      obtain ⟨w, hw⟩ := ihv pre₃ rfl hlen
      -- operators do not go on at the group itself, so another one stands before it
      have hne : pre₃ ≠ [] := by
        rintro rfl
        exact ne_append_of_length_lt hlen [] hv.eq_of_bracketed
      have hrests : Rests (op.rank + 1) (pre₃ ++ (lexemes w.text.toList ++ suf)) :=
        Rests.append hz.rests fun hnil => absurd hnil hne
      exact ⟨w, hw.group, .apply hl hop (hy' _ trivial) (hz' _ hrests) hx hw.whole, hw.rest_le⟩

end Replaces

/-- **Replacement of a group by its literal**: what takes up a group without
groups inside it comes to the same value with the literal in place of the group. -/
theorem Yields.replaces {s : Stage} {ls rest : List Lexeme} {v : Value} (h : Yields s ls v rest)
    {body : List Lexeme} (hbody : ∀ l ∈ body, l.IsPlain) (suf : List Lexeme) :
    Replaces body suf s ls v rest := by
  induction h with
  | stop =>
      intro pre hls hlen
      exact absurd hls (ne_append_of_length_lt hlen pre)
  | truth hl | integer hl =>
      intro pre hls hlen
      obtain ⟨pre', -, hrest⟩ := cons_eq_append_bracketed hls (by simp [hl])
      exact absurd hrest (ne_append_of_length_lt hlen pre')
  | negative hl hm =>
      intro pre hls hlen
      obtain ⟨pre₁, -, hls₁⟩ := cons_eq_append_bracketed hls (by simp [hl])
      obtain ⟨pre', -, hrest⟩ := cons_eq_append_bracketed hls₁ (by simp [hm])
      exact absurd hrest (ne_append_of_length_lt hlen pre')
  | not hl hx hv ih =>
      intro pre hls hlen
      obtain ⟨pre', rfl, hls₁⟩ := cons_eq_append_bracketed hls (by simp [hl])
      obtain ⟨w, hw⟩ := ih pre' hls₁ hlen
      exact ⟨w, hw.group, .not hl hw.whole hv, hw.rest_le⟩
  | neg hl hx hv ih =>
      intro pre hls hlen
      obtain ⟨pre', rfl, hls₁⟩ := cons_eq_append_bracketed hls (by simp [hl])
      obtain ⟨w, hw⟩ := ih pre' hls₁ hlen
      exact ⟨w, hw.group, .neg hl hw.whole hv, hw.rest_le⟩
  | parens hl hx hv hm ihx ihv => exact replaces_parens hbody hl hx hv hm ihx ihv
  | apply hl hop hy hz hx hv ihy ihz ihv => exact replaces_apply hl hop hy hz hx hv ihy ihz ihv

/-! ### All the lexemes -/

/-- All the lexemes mean what they come to in parentheses. -/
lemma means_iff_bracketed {ls : List Lexeme} {v : Value} :
    Means ls v ↔ Yields .operand (bracketed ls) v [] := by
  have hrests : Rests 0 [.closing] := rests_cons (by simp [Lexeme.closing]) 0 []
  constructor
  · rintro ⟨x, us, hx, hv⟩
    obtain ⟨taken, rfl, hx'⟩ := hx.exists_taken
    have hx₁ := hx' (us ++ [.closing]) trivial
    have hv₁ : Yields (.operators 0 x) (us ++ [.closing]) v [.closing] :=
      Yields.frame (by rwa [List.append_nil]) hrests
    rw [← List.append_assoc] at hx₁
    exact .parens rfl hx₁ hv₁ rfl
  · intro h
    rw [bracketed] at h
    generalize hls : ls ++ [.closing] = ls' at h
    cases h with
    | truth hl | integer hl | negative hl | not hl | neg hl => cases hl
    | @parens _ m _ us _ x _ hl hx hv hm =>
        subst hls
        obtain ⟨taken, rfl, hv'⟩ := hv.exists_taken
        obtain ⟨pre', hus, hx'⟩ := hx.passes (by simp)
        have hpre : taken = pre' := by
          have := congrArg List.dropLast hus
          simpa using this
        subst hpre
        have hx₁ := hx' [] trivial
        have hv₁ := hv' [] (rests_nil 0)
        rw [List.append_nil] at hx₁ hv₁
        exact ⟨x, taken, by rwa [List.append_nil] at hx₁, hv₁⟩

/-- Parentheses around all the lexemes change nothing. -/
lemma Means.enclosed {ls : List Lexeme} {v : Value} (h : Means ls v) :
    Means (bracketed ls) v :=
  ⟨v, [], means_iff_bracketed.mp h, .stop (rests_nil 0)⟩

/-- As many parentheses are opened as are closed. -/
lemma Means.balance {ls : List Lexeme} {v : Value} (h : Means ls v) :
    openings ls = closings ls := by
  obtain ⟨x, us, hx, hv⟩ := h
  have h1 := hx.balance
  have h2 := hv.balance
  simp only [openings, closings, List.countP_nil] at *
  omega

/-- **A group may be replaced by the literal of its value.** -/
theorem Means.replace {pre body suf : List Lexeme} {v : Value}
    (h : Means (pre ++ (bracketed body ++ suf)) v) (hbody : ∀ l ∈ body, l.IsPlain) :
    ∃ w, Means (bracketed body) w ∧ Means (pre ++ (lexemes w.text.toList ++ suf)) v := by
  have hall : bracketed (pre ++ (bracketed body ++ suf)) =
      (.opening :: pre) ++ (bracketed body ++ (suf ++ [.closing])) := by
    simp [bracketed]
  have hlen : ([] : List Lexeme).length <
      (bracketed body ++ (suf ++ [Lexeme.closing])).length := by
    simp [bracketed]
  obtain ⟨w, hw⟩ := (means_iff_bracketed.mp h).replaces hbody _ _ hall hlen
  refine ⟨w, ⟨w, [], hw.group, .stop (rests_nil 0)⟩, means_iff_bracketed.mpr ?_⟩
  simpa [bracketed] using hw.whole

end Innermost
