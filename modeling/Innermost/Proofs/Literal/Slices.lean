import Innermost.Proofs.Literal.LongestMatch
import Innermost.Proofs.Literal.Phrase
import Innermost.Proofs.Text.Regions

/-!
Parts of a text by themselves.

* `Phrase.eval_relocate`: in another place a phrase has the same value, and its faults are
  shown there.
* `exists_scanned_behind`, `exists_scanned_before`: a text may be cut in front of a token and
  behind one, since a token that ends in front of some characters also ends in front of fewer
  of them. So tokens that stand side by side in a text are all the tokens of the part of the
  text that they fill (`tokens_slice`).
* `Token.StandsBefore`: what each token of a text is in front of what follows it
  (`exists_standsBefore`).
* `Phrase.Grammatical.evaluate_slice`: the part of a text that a phrase fills has the value
  of this phrase.
-/

namespace Innermost

/-! ### Other places -/

/-- The region with its places changed by `f`. -/
def Span.relocate (f : Nat → Nat) (s : Span) : Span := ⟨f s.start, f s.stop⟩

/-- The token in a region with its places changed. -/
def Token.relocate (f : Nat → Nat) (t : Token) : Token := { t with span := t.span.relocate f }

/-- The operand in a region with its places changed. -/
def Operand.relocate (f : Nat → Nat) (x : Operand) : Operand := ⟨x.value, x.span.relocate f⟩

/-- The diagnostic at regions with their places changed. -/
def Diagnostic.relocate (f : Nat → Nat) (d : Diagnostic) : Diagnostic :=
  ⟨d.cause, d.spans.map (Span.relocate f)⟩

/-- The operand or the diagnostic in another place. -/
def relocated (f : Nat → Nat) : Except Diagnostic Operand → Except Diagnostic Operand
  | .ok x => .ok (x.relocate f)
  | .error d => .error (d.relocate f)

section Relocation

variable (f : Nat → Nat)

lemma relocated_bind {c : Except Diagnostic Operand} {g h : Operand → Except Diagnostic Operand}
    (hgh : ∀ x, h (x.relocate f) = relocated f (g x)) :
    relocated f c >>= h = relocated f (c >>= g) := by
  cases c with
  | error d => rfl
  | ok x => exact hgh x

lemma Operand.ofEval_relocate (span : Span) {spans spans' : LiteralFault → List Span}
    (result : Except LiteralFault Value)
    (h : ∀ fault, spans' fault = (spans fault).map (Span.relocate f)) :
    Operand.ofEval (span.relocate f) spans' result =
      relocated f (Operand.ofEval span spans result) := by
  cases result with
  | ok v => rfl
  | error fault =>
      rw [Operand.ofEval, h]
      rfl

lemma UnaryOp.apply_relocate (op : UnaryOp) (place : Span) (x : Operand) :
    op.apply (place.relocate f) (x.relocate f) = relocated f (op.apply place x) :=
  Operand.ofEval_relocate f (place.through x.span) _ fun fault => by cases fault <;> rfl

lemma BinaryOp.apply_relocate (op : BinaryOp) (place : Span) (x y : Operand) :
    op.apply (place.relocate f) (x.relocate f) (y.relocate f) = relocated f (op.apply place x y) :=
  Operand.ofEval_relocate f (x.span.through y.span) _ fun fault => by cases fault <;> rfl

lemma Evaluation.integer_relocate (negative : Bool) (digits : String) (span : Span) :
    integer negative digits (span.relocate f) = relocated f (integer negative digits span) := by
  rw [integer, integer]
  split <;> rfl

namespace Phrase

/-- The phrase in another place. -/
def relocate (f : Nat → Nat) : Phrase → Phrase
  | literal t => literal (t.relocate f)
  | negative sign digits => negative (sign.relocate f) (digits.relocate f)
  | parens opening x closing => parens (opening.relocate f) (x.relocate f) (closing.relocate f)
  | unary op sign x => unary op (sign.relocate f) (x.relocate f)
  | binary op x sign y => binary op (x.relocate f) (sign.relocate f) (y.relocate f)

lemma tokens_relocate (p : Phrase) : (p.relocate f).tokens = p.tokens.map (Token.relocate f) := by
  induction p with
  | literal t | negative sign digits => rfl
  | parens opening x closing ih => simp [relocate, tokens, ih]
  | unary op sign x ih => simp [relocate, tokens, ih]
  | binary op x sign y ihx ihy => simp [relocate, tokens, ihx, ihy]

lemma rank_relocate (p : Phrase) : (p.relocate f).rank = p.rank := by
  cases p <;> rfl

lemma Grammatical.relocate {p : Phrase} (h : p.Grammatical) : (p.relocate f).Grammatical := by
  induction h with
  | truth ht => exact .truth ht
  | integer ht => exact .integer ht
  | negative hsign hdigits => exact .negative hsign hdigits
  | parens hopening _ hclosing ih => exact .parens hopening ih hclosing
  | not hsign _ hrank ih => exact .not hsign ih ((rank_relocate f _).trans hrank)
  | @neg sign x hsign _ hrank hhead ih =>
      refine .neg hsign ih ((rank_relocate f _).trans hrank) fun t ht => ?_
      rw [tokens_relocate, List.head?_map] at ht
      obtain ⟨u, hu, rfl⟩ := Option.map_eq_some_iff.mp ht
      exact hhead u hu
  | binary hsign _ _ hxrank hyrank ihx ihy =>
      exact .binary hsign ihx ihy (by rwa [rank_relocate]) (by rwa [rank_relocate])

/-- In another place a phrase has the same value, or the same fault there. -/
lemma eval_relocate (p : Phrase) : (p.relocate f).eval = relocated f p.eval := by
  induction p with
  | literal t =>
      rw [relocate, eval, eval]
      have hkind : (t.relocate f).kind = t.kind := rfl
      rw [hkind]
      split
      · rfl
      · exact Evaluation.integer_relocate f false t.lexeme t.span
  | negative sign digits =>
      exact Evaluation.integer_relocate f true digits.lexeme (sign.span.through digits.span)
  | parens opening x closing ih =>
      rw [relocate, eval, ih, eval]
      cases x.eval <;> rfl
  | unary op sign x ih =>
      rw [relocate, eval, ih, eval]
      exact relocated_bind f fun v => op.apply_relocate f sign.span v
  | binary op x sign y ihx ihy =>
      rw [relocate, eval, ihx, ihy, eval]
      exact relocated_bind f fun v => relocated_bind f fun w => op.apply_relocate f sign.span v w

end Phrase

end Relocation

/-! ### Tokens side by side -/

/-- A longest lexeme is one as well if fewer characters follow. -/
lemma Munches.of_isPrefix {cs cs' l : List Char} {k : TokenKind} (h : Munches cs k l)
    (hl : l <+: cs') (hcs : cs' <+: cs) : Munches cs' k l :=
  ⟨hl, h.isMatch, fun hm => h.longest (hm.trans hcs), h.preferred⟩

/-- What is added to a character does not depend on what follows behind it. -/
lemma lexemeTail_of_isPrefix {c : Char} {rest ms : List Char}
    (h : ms <+: rest.drop (lexemeTail c rest).length) :
    lexemeTail c (lexemeTail c rest ++ ms) = lexemeTail c rest := by
  obtain ⟨after, hafter⟩ := h
  have hcs : c :: lexemeTail c rest ++ ms <+: c :: rest := by
    rw [← lexemeTail_append_drop c rest, ← hafter, ← List.append_assoc]
    exact List.prefix_append _ _
  have hmunches := (munches_lexemeTail c rest).of_isPrefix (List.prefix_append _ ms) hcs
  exact (List.cons.inj (hmunches.unique (munches_lexemeTail c _)).1).2.symm

/-- The tokens of the characters `cs` of which the first one stands at byte `start`, without
blanks. -/
def scanned (start : Nat) (cs : List Char) : List Token :=
  (Token.scan start cs).filter fun token => token.kind ≠ .blank

/-- The lexeme that the character `c` at byte `start` begins. -/
def Token.first (start : Nat) (c : Char) (rest : List Char) : Token :=
  ⟨.ofLexeme (c :: lexemeTail c rest), ⟨start, start + byteLength (c :: lexemeTail c rest)⟩,
    String.ofList (c :: lexemeTail c rest)⟩

lemma tokens_ofList (cs : List Char) : tokens (String.ofList cs) = scanned 0 cs := by
  rw [tokens, String.toList_ofList, scanned]

lemma scanned_nil (start : Nat) : scanned start [] = [] := by
  rw [scanned, Token.scan]
  rfl

section Scanned

variable {start : Nat} {c : Char} {rest cs ms : List Char} {t : Token} {us vs : List Token}

/-- The first lexeme is the same, whatever follows behind it. -/
lemma scanned_first (h : ms <+: rest.drop (lexemeTail c rest).length) :
    scanned start (c :: lexemeTail c rest ++ ms) =
      if (Token.first start c rest).kind = .blank then
        scanned (Token.first start c rest).span.stop ms
      else Token.first start c rest :: scanned (Token.first start c rest).span.stop ms := by
  have hscan : Token.scan start (c :: (lexemeTail c rest ++ ms)) =
      Token.first start c rest :: Token.scan (Token.first start c rest).span.stop ms := by
    rw [Token.scan]
    simp only [lexemeTail_of_isPrefix h, List.drop_left]
    rfl
  rw [scanned, List.cons_append, hscan, List.filter_cons]
  by_cases hblank : (Token.first start c rest).kind = .blank <;> simp [hblank, scanned]

lemma scanned_cons (start : Nat) (c : Char) (rest : List Char) :
    scanned start (c :: rest) =
      if (Token.first start c rest).kind = .blank then
        scanned (Token.first start c rest).span.stop (rest.drop (lexemeTail c rest).length)
      else Token.first start c rest ::
        scanned (Token.first start c rest).span.stop (rest.drop (lexemeTail c rest).length) := by
  conv_lhs => rw [← lexemeTail_append_drop c rest]
  exact scanned_first List.prefix_rfl

/-- The byte behind the last of the tokens, or `start` if there are none. -/
def stopBehind (start : Nat) : List Token → Nat
  | [] => start
  | t :: ts => stopBehind t.span.stop ts

/-- The characters behind the first lexeme come before the whole. -/
@[elab_as_elim]
lemma scan_induction {P : Nat → List Char → Prop} (nil : ∀ start, P start [])
    (cons : ∀ start c rest, P (Token.first start c rest).span.stop
      (rest.drop (lexemeTail c rest).length) → P start (c :: rest))
    (start : Nat) (cs : List Char) : P start cs := by
  induction hn : cs.length using Nat.strong_induction_on generalizing start cs with
  | _ n ih =>
      cases cs with
      | nil => exact nil start
      | cons c rest =>
          refine cons start c rest (ih _ ?_ _ _ rfl)
          rw [← hn, List.length_drop, List.length_cons]
          omega

/-- Tokens behind others are those of the characters from the first of them on. -/
lemma exists_scanned_behind (h : scanned start cs = us ++ t :: vs) :
    ∃ before after, cs = before ++ after ∧ t.span.start = start + byteLength before ∧
      scanned t.span.start after = t :: vs := by
  induction start, cs using scan_induction generalizing us with
  | nil start =>
      rw [scanned_nil] at h
      simp at h
  | cons start c rest ih =>
      have hpast {us : List Token} (h : scanned (Token.first start c rest).span.stop
          (rest.drop (lexemeTail c rest).length) = us ++ t :: vs) :
          ∃ before after, c :: rest = before ++ after ∧
            t.span.start = start + byteLength before ∧ scanned t.span.start after = t :: vs := by
        obtain ⟨before, after, hcs, hstart, hscanned⟩ := ih h
        refine ⟨c :: lexemeTail c rest ++ before, after, ?_, ?_, hscanned⟩
        · rw [List.append_assoc, ← hcs, lexemeTail_append_drop]
        · rw [hstart, byteLength_append, ← Nat.add_assoc]
          rfl
      have hcons := h
      rw [scanned_cons] at hcons
      split_ifs at hcons with hblank
      · exact hpast hcons
      · cases us with
        | nil =>
            obtain ⟨rfl, -⟩ := List.cons.inj hcons
            exact ⟨[], c :: rest, rfl, rfl, h⟩
        | cons u us => exact hpast (List.cons.inj hcons).2

/-- Tokens in front of others are all the tokens of the characters up to the last of them. -/
lemma exists_scanned_before (h : scanned start cs = us ++ vs) :
    ∃ part after, cs = part ++ after ∧ scanned start part = us ∧
      stopBehind start us = start + byteLength part := by
  induction start, cs using scan_induction generalizing us with
  | nil start =>
      obtain ⟨rfl, -⟩ := List.append_eq_nil_iff.mp (h.symm.trans (scanned_nil start))
      exact ⟨[], [], rfl, scanned_nil start, rfl⟩
  | cons start c rest ih =>
      rcases us with _ | ⟨u, us⟩
      · exact ⟨[], c :: rest, rfl, scanned_nil start, rfl⟩
      -- the first lexeme is one of the tokens, or a blank one
      rw [scanned_cons] at h
      split_ifs at h with hblank
      · obtain ⟨part, after, hcs, hpart, hstop⟩ := ih h
        refine ⟨c :: lexemeTail c rest ++ part, after, ?_, ?_, ?_⟩
        · rw [List.append_assoc, ← hcs, lexemeTail_append_drop]
        · rw [scanned_first (hcs ▸ List.prefix_append part after), if_pos hblank, hpart]
        · rw [byteLength_append, ← Nat.add_assoc]
          exact hstop
      · obtain ⟨rfl, htail⟩ := List.cons.inj h
        obtain ⟨part, after, hcs, hpart, hstop⟩ := ih htail
        refine ⟨c :: lexemeTail c rest ++ part, after, ?_, ?_, ?_⟩
        · rw [List.append_assoc, ← hcs, lexemeTail_append_drop]
        · rw [scanned_first (hcs ▸ List.prefix_append part after), if_neg hblank, hpart]
        · rw [byteLength_append, ← Nat.add_assoc]
          exact hstop

/-- The place of the first character moves all tokens along. -/
lemma scanned_add (start k : Nat) (cs : List Char) :
    scanned (start + k) cs = (scanned start cs).map (Token.relocate (· + k)) := by
  induction start, cs using scan_induction with
  | nil start => rw [scanned_nil, scanned_nil, List.map_nil]
  | cons start c rest ih =>
      have hfirst : Token.first (start + k) c rest =
          (Token.first start c rest).relocate (· + k) := by
        simp [Token.first, Token.relocate, Span.relocate]
        omega
      have hstop : (Token.first (start + k) c rest).span.stop =
          (Token.first start c rest).span.stop + k := congrArg (fun t => t.span.stop) hfirst
      have hkind : (Token.first (start + k) c rest).kind = (Token.first start c rest).kind := rfl
      rw [scanned_cons, scanned_cons, hstop, ih, hkind, hfirst]
      split_ifs <;> rfl

end Scanned

/-! ### Parts of a text -/

lemma stopBehind_eq (start : Nat) {us : List Token} (hne : us ≠ []) :
    stopBehind start us = (us.getLast hne).span.stop := by
  induction us generalizing start with
  | nil => exact absurd rfl hne
  | cons t us ih =>
      by_cases hus : us = []
      · subst hus
        rfl
      · rw [List.getLast_cons hus]
        exact ih t.span.stop hus

lemma Token.relocate_sub_add (k : Nat) (t : Token) :
    (t.relocate (· + k)).relocate (· - k) = t := by
  simp [relocate, Span.relocate]

/-- **Tokens side by side in a text are the tokens of the part that they fill.** -/
theorem tokens_slice {text : String} {us : List Token} (h : us <:+: tokens text) (hne : us ≠ []) :
    let part : Span := ⟨(us.head hne).span.start, (us.getLast hne).span.stop⟩
    tokens (part.slice text) = us.map (Token.relocate (· - part.start)) ∧
      part.relocate (· - part.start) = .whole (part.slice text) := by
  intro part
  obtain ⟨ts, vs, h⟩ := h
  obtain ⟨t, us, rfl⟩ := List.exists_cons_of_ne_nil hne
  have hscan : scanned 0 text.toList = ts ++ t :: (us ++ vs) := by
    rw [← List.cons_append, ← List.append_assoc]
    exact h.symm
  obtain ⟨before, rest, htext, hstart, hrest⟩ := exists_scanned_behind hscan
  rw [← List.cons_append] at hrest
  obtain ⟨cs, after, rfl, hcs, hstop⟩ := exists_scanned_before hrest
  have hpart : part = ⟨t.span.start, t.span.start + byteLength cs⟩ := by
    rw [stopBehind_eq _ hne] at hstop
    exact congrArg (Span.mk t.span.start) hstop
  have hcontinues : ContinuesAt text t.span.start (cs ++ after) :=
    ⟨before, htext, by rw [hstart, Nat.zero_add]⟩
  have hslice : part.slice text = String.ofList cs := hpart ▸ hcontinues.slice
  constructor
  · calc tokens (part.slice text)
        = scanned 0 cs := by rw [hslice, tokens_ofList]
      _ = ((scanned 0 cs).map (Token.relocate (· + part.start))).map
            (Token.relocate (· - part.start)) := by
          rw [List.map_map]
          exact (List.map_id'' (Token.relocate_sub_add part.start) _).symm
      _ = (scanned part.start cs).map (Token.relocate (· - part.start)) := by
          rw [← scanned_add, Nat.zero_add]
      _ = (t :: us).map (Token.relocate (· - part.start)) := congrArg _ hcs
  · rw [hslice, Span.whole, ← byteLength_toList, String.toList_ofList, hpart]
    simp [Span.relocate]

/-- What is known of a lexeme of a text in which the characters `rest` follow behind it. -/
structure Token.StandsBefore (text : String) (rest : List Char) (t : Token) : Prop where
  /-- The lexeme is found at the first byte of the region, with the rest behind it. -/
  continuesAt : ContinuesAt text t.span.start (t.lexeme.toList ++ rest)
  /-- The region is as long as the lexeme. -/
  stop_eq : t.span.stop = t.span.start + byteLength t.lexeme.toList
  /-- The lexeme is the longest one there, and counts as its kind. -/
  munches : Munches (t.lexeme.toList ++ rest) t.kind t.lexeme.toList

namespace Token.StandsBefore

variable {text : String} {rest : List Char} {t : Token}

lemma span_eq (h : t.StandsBefore text rest) :
    t.span = ⟨t.span.start, t.span.start + byteLength t.lexeme.toList⟩ :=
  congrArg (Span.mk t.span.start) h.stop_eq

lemma slice (h : t.StandsBefore text rest) : t.span.slice text = t.lexeme := by
  rw [h.span_eq, h.continuesAt.slice, String.ofList_toList]

end Token.StandsBefore

/-- Each lexeme that a text is cut into stands in its region. -/
lemma exists_standsBefore_of_mem_scan {text : String} {start : Nat} {cs : List Char} {t : Token}
    (h : ContinuesAt text start cs) (ht : t ∈ Token.scan start cs) :
    ∃ rest, t.StandsBefore text rest := by
  fun_induction Token.scan start cs with
  | case1 start => cases ht
  | case2 start c rest tail stop ih =>
      have hmunches := munches_lexemeTail c rest
      rw [← lexemeTail_append_drop c rest] at h hmunches
      rcases List.mem_cons.mp ht with rfl | ht
      · refine ⟨rest.drop tail.length, ?_, ?_, ?_⟩
        · rwa [String.toList_ofList]
        · rw [String.toList_ofList]
        · rwa [String.toList_ofList]
      · exact ih h.append ht

lemma exists_standsBefore {text : String} {t : Token} (ht : t ∈ tokens text) :
    ∃ rest, t.StandsBefore text rest :=
  exists_standsBefore_of_mem_scan (continuesAt_start text) (List.mem_filter.mp ht).1

/-- Each token is found in its region, and matches the pattern of its kind. -/
lemma slice_of_mem_tokens {text : String} {t : Token} (ht : t ∈ tokens text) :
    t.span.slice text = t.lexeme ∧ t.kind.Matches t.lexeme.toList := by
  obtain ⟨rest, h⟩ := exists_standsBefore ht
  exact ⟨h.slice, h.munches.isMatch⟩

namespace Phrase

variable {p : Phrase} {text : String}

lemma span_eq (p : Phrase) : p.span =
    ⟨(p.tokens.head p.tokens_ne_nil).span.start, (p.tokens.getLast p.tokens_ne_nil).span.stop⟩ := by
  rw [← start_span, ← stop_span]

/-- The region of a phrase holds all of its part of the text. -/
lemma relocate_span (h : p.tokens <:+: Innermost.tokens text) :
    p.span.relocate (· - p.span.start) = .whole (p.span.slice text) := by
  have hslice := (tokens_slice h p.tokens_ne_nil).2
  rwa [← span_eq] at hslice

/-- **The part of a text that a phrase fills has the value of this phrase**, or its fault,
which is then shown in this part. -/
theorem Grammatical.evaluate_slice (hp : p.Grammatical) (h : p.tokens <:+: Innermost.tokens text) :
    evaluate (p.span.slice text) =
      (relocated (· - p.span.start) p.eval).map Operand.value := by
  have hslice := (tokens_slice h p.tokens_ne_nil).1
  rw [← span_eq, ← tokens_relocate] at hslice
  rw [(hp.relocate _).evaluate_eq hslice, eval_relocate]

lemma Grammatical.evaluate_slice_eq_ok_iff {v : Value} (hp : p.Grammatical)
    (h : p.tokens <:+: Innermost.tokens text) :
    evaluate (p.span.slice text) = .ok v ↔ p.HasValue v := by
  rw [hp.evaluate_slice h, HasValue]
  cases p.eval <;> simp [relocated, Except.map, Operand.relocate]

/-- The same of the parts of a phrase. -/
lemma Grammatical.evaluate_slice_of_mem {q : Phrase} {v : Value} (hp : p.Grammatical)
    (h : p.tokens <:+: Innermost.tokens text) (hq : q ∈ p.subphrases) :
    evaluate (q.span.slice text) = .ok v ↔ q.HasValue v :=
  (hp.of_mem hq).evaluate_slice_eq_ok_iff ((tokens_isInfix_of_mem hq).trans h)

/-- The region of an operand holds a text with its value. -/
lemma Grammatical.evaluate_slice_of_eval {x : Operand} (hp : p.Grammatical)
    (h : p.tokens <:+: Innermost.tokens text) (hx : p.eval = .ok x) :
    evaluate (x.span.slice text) = .ok x.value := by
  rw [span_of_eval hx]
  exact (hp.evaluate_slice_eq_ok_iff h).mpr ⟨x, hx, rfl⟩

/-- A fault of a whole phrase is also that of the text in the region of this phrase. -/
lemma Grammatical.evaluate_slice_of_eval_eq_error {fault : LiteralFault} (hp : p.Grammatical)
    (h : p.tokens <:+: Innermost.tokens text) (hd : p.eval = .error (fault.at [p.span])) :
    evaluate (p.span.slice text) = .error (fault.at [.whole (p.span.slice text)]) := by
  rw [hp.evaluate_slice h, hd, ← relocate_span h]
  rfl

end Phrase

end Innermost
