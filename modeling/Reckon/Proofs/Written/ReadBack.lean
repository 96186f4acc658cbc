import Reckon.Proofs.Written.Words

/-!
# Written expressions read back

Each part of a written expression derives as one operand next to whatever stands beside it
(`readsBack`), so compiling the text of an expression gives its normal form in one more sum
(`compile_text`).
-/

namespace Reckon

open Token (Kind Marked)
open Grammar

/-! ## Derivations with nothing beside -/

namespace Grammar

/-- An operand is a power without exponents. -/
theorem exists_power {ts : List Token} (a : Operand ts) :
    ∃ p : Power ts, p.expr = a.expr ∧ p.term = a.expr := by
  suffices h : ∀ us, us = ts ++ [] → ∃ p : Power us, p.expr = a.expr ∧ p.term = a.expr from
    h ts (List.append_nil ts).symm
  rintro _ rfl
  exact ⟨.mk a .nil, rfl, rfl⟩

/-- A power is a term without further factors. -/
theorem exists_term {ts : List Token} (p : Power ts) : ∃ t : Term ts, t.expr = p.term := by
  suffices h : ∀ us, us = ts ++ [] → ∃ t : Term us, t.expr = p.term from
    h ts (List.append_nil ts).symm
  rintro _ rfl
  exact ⟨.mk p .nil, rfl⟩

/-- A term is a sum without further terms. -/
theorem exists_sum_of_term {ts : List Token} (t : Term ts) : ∃ s : Sum ts, s.exprs = [t.expr] := by
  suffices h : ∀ us, us = ts ++ [] → ∃ s : Sum us, s.exprs = [t.expr] from
    h ts (List.append_nil ts).symm
  rintro _ rfl
  exact ⟨.terms t .nil, rfl⟩

/-- An operand is a sum of itself. -/
theorem exists_sum_of_operand {ts : List Token} (a : Operand ts) :
    ∃ s : Sum ts, s.exprs = [a.expr] := by
  obtain ⟨p, -, hp⟩ := exists_power a
  obtain ⟨t, ht⟩ := exists_term p
  obtain ⟨s, hs⟩ := exists_sum_of_term t
  exact ⟨s, by rw [hs, ht, hp]⟩

end Grammar

/-! ## Deriving the words -/

/-- A word with a sign before it is one token. -/
theorem exists_of_marked_signed {before : Option Kind} {sign : Sign} {w : Word} {ws : List Word}
    {tokens : List Token} (h : Marked before ((sign.words ++ w :: ws).map Word.kind) tokens)
    (hbefore : before ≠ some .minus) (hw : w.kind.isSign = false) :
    ∃ t ts, tokens = t :: ts ∧ t.kind = w.kind ∧ t.sign = sign ∧
      (before = some .plus → t.explicitSign = true) ∧
      Marked (some w.kind) (ws.map Word.kind) ts := by
  cases sign with
  | positive =>
    obtain ⟨t, ts, rfl, hkind, hsign, hmark, hrest⟩ := h.of_token hw
    rw [if_neg hbefore] at hsign
    refine ⟨t, ts, rfl, hkind, hsign, ?_, hrest⟩
    rintro rfl
    exact hmark
  | negative =>
    obtain ⟨t, ts, rfl, hkind, hsign, hmark, hrest⟩ := (h.of_sign rfl).of_token hw
    exact ⟨t, ts, rfl, hkind, hsign, fun _ => hmark, hrest⟩

/-- Words in brackets are an operand as soon as they are a sum. -/
theorem exists_operand_of_bracketed {before : Option Kind} {sign : Sign} {ws : List Word}
    {tokens : List Token} {es : List Expr}
    (h : Marked before ((sign.words ++ Word.bracketed ws).map Word.kind) tokens)
    (hbefore : before ≠ some .minus)
    (hsum : ∀ ts, Marked (some .openBracket) (ws.map Word.kind) ts → ∃ s : Sum ts, s.exprs = es) :
    ∃ a : Operand tokens, a.expr = .sum es sign ∧
      (before = some .plus → startsSigned tokens = true) := by
  obtain ⟨o, rest, rfl, hopen, rfl, hmark, hrest⟩ := exists_of_marked_signed h hbefore rfl
  rw [List.map_append] at hrest
  obtain ⟨ts, us, before', rfl, hts, hus⟩ := hrest.of_append
  obtain ⟨c, vs, rfl, hclose, -, -, hnil⟩ := hus.of_token rfl
  obtain rfl := hnil.eq_nil
  obtain ⟨s, rfl⟩ := hsum ts hts
  exact ⟨.bracket hopen s hclose, rfl, hmark⟩

namespace Expr

/-- Whether the words of an expression, with their signs folded, derive as an operand that stands
for its normal form, and whether a `+` before them marks the operand. -/
def ReadsBack (e : Expr) : Prop :=
  ∀ before tokens, Marked before (e.words.map Word.kind) tokens → before ≠ some .minus →
    ∃ a : Operand tokens, a.expr = e.normal ∧ (before = some .plus → startsSigned tokens = true)

theorem exists_addends {es : List Expr} (h : ∀ e ∈ es, e.ReadsBack) {before : Option Kind}
    {tokens : List Token} (hm : Marked before ((wordsAfter .plus es).map Word.kind) tokens) :
    ∃ a : Addends tokens, a.exprs = normals es := by
  induction es generalizing before tokens with
  | nil =>
    obtain rfl := hm.eq_nil
    exact ⟨.nil, rfl⟩
  | cons e es ih =>
    rw [List.forall_mem_cons] at h
    rw [wordsAfter, List.map_cons, List.map_append] at hm
    obtain ⟨ts, us, before', rfl, hts, hus⟩ := (hm.of_sign rfl).of_append
    obtain ⟨a, ha, hstarts⟩ := h.1 _ ts hts nofun
    obtain ⟨p, -, hp⟩ := exists_power a
    obtain ⟨t, ht⟩ := exists_term p
    obtain ⟨rest, hrest⟩ := ih h.2 hus
    exact ⟨.cons (hstarts rfl) t rest, by rw [Addends.exprs, ht, hp, ha, hrest, normals]⟩

theorem exists_factors {es : List Expr} (h : ∀ e ∈ es, e.ReadsBack) {before : Option Kind}
    {tokens : List Token} (hm : Marked before ((wordsAfter .times es).map Word.kind) tokens) :
    ∃ a : Factors tokens, a.exprs = normals es := by
  induction es generalizing before tokens with
  | nil =>
    obtain rfl := hm.eq_nil
    exact ⟨.nil, rfl⟩
  | cons e es ih =>
    rw [List.forall_mem_cons] at h
    rw [wordsAfter, List.map_cons, List.map_append] at hm
    obtain ⟨t, others, rfl, hkind, -, -, hothers⟩ := hm.of_token rfl
    obtain ⟨ts, us, before', rfl, hts, hus⟩ := hothers.of_append
    obtain ⟨a, ha, -⟩ := h.1 _ ts hts nofun
    obtain ⟨p, hp, -⟩ := exists_power a
    obtain ⟨rest, hrest⟩ := ih h.2 hus
    exact ⟨.cons (.times hkind p) rest, by
      change p.expr :: rest.exprs = _
      rw [hp, ha, hrest, normals]⟩

theorem exists_exponents {es : List Expr} (h : ∀ e ∈ es, e.ReadsBack) {before : Option Kind}
    {tokens : List Token} (hm : Marked before ((wordsAfter .power es).map Word.kind) tokens) :
    ∃ a : Exponents tokens, a.exprs = normals es := by
  induction es generalizing before tokens with
  | nil =>
    obtain rfl := hm.eq_nil
    exact ⟨.nil, rfl⟩
  | cons e es ih =>
    rw [List.forall_mem_cons] at h
    rw [wordsAfter, List.map_cons, List.map_append] at hm
    obtain ⟨t, others, rfl, hkind, -, -, hothers⟩ := hm.of_token rfl
    obtain ⟨ts, us, before', rfl, hts, hus⟩ := hothers.of_append
    obtain ⟨a, ha, -⟩ := h.1 _ ts hts nofun
    obtain ⟨rest, hrest⟩ := ih h.2 hus
    exact ⟨.cons hkind a rest, by
      change a.expr :: rest.exprs = _
      rw [ha, hrest, normals]⟩

/-- The terms of a sum derive as a sum of their normal forms. -/
theorem exists_sum_of_terms {es : List Expr} (h : ∀ e ∈ es, e.ReadsBack) {tokens : List Token}
    (hm : Marked (some .openBracket) ((wordsJoined .plus es).map Word.kind) tokens) :
    ∃ s : Sum tokens, s.exprs = normals es := by
  cases es with
  | nil =>
    obtain rfl := hm.eq_nil
    exact ⟨.empty, rfl⟩
  | cons e es =>
    rw [List.forall_mem_cons] at h
    rw [wordsJoined, List.map_append] at hm
    obtain ⟨ts, us, before', rfl, hts, hus⟩ := hm.of_append
    obtain ⟨a, ha, -⟩ := h.1 _ ts hts nofun
    obtain ⟨p, -, hp⟩ := exists_power a
    obtain ⟨t, ht⟩ := exists_term p
    obtain ⟨rest, hrest⟩ := exists_addends h.2 hus
    exact ⟨.terms t rest, by rw [Sum.exprs, ht, hp, ha, hrest, normals]⟩

/-- Two factors or more derive as a product of their normal forms. -/
theorem exists_sum_of_factors {e e' : Expr} {es : List Expr}
    (h : ∀ x ∈ e :: e' :: es, x.ReadsBack) {tokens : List Token}
    (hm : Marked (some .openBracket) ((wordsJoined .times (e :: e' :: es)).map Word.kind) tokens) :
    ∃ s : Sum tokens, s.exprs = [product (normals (e :: e' :: es)) .positive] := by
  rw [List.forall_mem_cons] at h
  rw [wordsJoined, List.map_append] at hm
  obtain ⟨ts, us, before', rfl, hts, hus⟩ := hm.of_append
  obtain ⟨a, ha, -⟩ := h.1 _ ts hts nofun
  obtain ⟨p, hp, -⟩ := exists_power a
  obtain ⟨factors, hfactors⟩ := exists_factors h.2 hus
  obtain ⟨s, hs⟩ := exists_sum_of_term (.mk p factors)
  refine ⟨s, ?_⟩
  rw [hs, Term.expr, hfactors, hp, ha]
  rfl

/-- Two operands or more derive as a power of their normal forms. -/
theorem exists_sum_of_operands {e e' : Expr} {es : List Expr}
    (h : ∀ x ∈ e :: e' :: es, x.ReadsBack) {tokens : List Token}
    (hm : Marked (some .openBracket) ((wordsJoined .power (e :: e' :: es)).map Word.kind) tokens) :
    ∃ s : Sum tokens,
      s.exprs = [product [power (normals (e :: e' :: es)) .positive] .positive] := by
  rw [List.forall_mem_cons] at h
  rw [wordsJoined, List.map_append] at hm
  obtain ⟨ts, us, before', rfl, hts, hus⟩ := hm.of_append
  obtain ⟨a, ha, -⟩ := h.1 _ ts hts nofun
  obtain ⟨exponents, hexponents⟩ := exists_exponents h.2 hus
  obtain ⟨t, ht⟩ := exists_term (.mk a exponents)
  obtain ⟨s, hs⟩ := exists_sum_of_term t
  refine ⟨s, ?_⟩
  rw [hs, ht, normals, ← ha, ← hexponents]
  cases exponents with
  | nil => contradiction
  | cons hk exponent rest => rfl

/-- A digit over zero derives as the sum of one quotient. -/
theorem exists_sum_of_overZero {digit : Char} {x : Float} {tokens : List Token}
    (hm : Marked (some .openBracket) ((Word.overZero digit x).map Word.kind) tokens) :
    ∃ s : Sum tokens,
      s.exprs = [product [literal x .positive, inverse (literal 0 .positive)] .positive] := by
  obtain ⟨t, ts, rfl, hx, hsign, -, hm⟩ := hm.of_token rfl
  obtain ⟨o, us, rfl, ho, -, -, hm⟩ := hm.of_token rfl
  obtain ⟨z, vs, rfl, hz, hzsign, -, hm⟩ := hm.of_token rfl
  obtain rfl := hm.eq_nil
  have hx' : (Operand.number x hx).expr = literal x .positive := by
    rw [Operand.expr, hsign, if_neg nofun]
  have hz' : (Operand.number 0 hz).expr = literal 0 .positive := by
    rw [Operand.expr, hzsign, if_neg nofun]
  obtain ⟨s, hs⟩ := exists_sum_of_term
    (.mk (.mk (.number x hx) .nil) (.cons (.divide ho (.mk (.number 0 hz) .nil)) .nil))
  refine ⟨s, ?_⟩
  rw [hs, ← hx', ← hz']
  rfl

theorem readsBack_literal (x : Float) (sign : Sign) : (literal x sign).ReadsBack := by
  intro before tokens hm hbefore
  rw [words, literalWords] at hm
  rw [normal, literalNormal]
  split at hm
  · rename_i hnan
    rw [if_pos hnan]
    refine exists_operand_of_bracketed hm hbefore fun ts hts => ?_
    exact exists_sum_of_overZero hts
  · rename_i hnan
    rw [if_neg hnan]
    split at hm
    · rename_i hinf
      rw [if_pos hinf]
      refine exists_operand_of_bracketed hm hbefore fun ts hts => ?_
      exact exists_sum_of_overZero hts
    · rename_i hinf
      rw [if_neg hinf]
      obtain ⟨t, ts, rfl, hkind, hsign, hmark, hrest⟩ := exists_of_marked_signed hm hbefore rfl
      obtain rfl := hrest.eq_nil
      refine ⟨.number _ hkind, ?_, hmark⟩
      change literal _ t.sign = _
      rw [hsign]

mutual

/-- The words of a well-formed expression derive as an operand, whatever stands beside them. -/
theorem readsBack (e : Expr) (h : e.WellFormed) : e.ReadsBack := by
  match e with
  | literal x sign => exact readsBack_literal x sign
  | var name sign =>
    intro before tokens hm hbefore
    obtain ⟨t, ts, rfl, hkind, rfl, hmark, hrest⟩ := exists_of_marked_signed hm hbefore rfl
    obtain rfl := hrest.eq_nil
    exact ⟨.var name hkind, rfl, hmark⟩
  | call function argument sign =>
    intro before tokens hm hbefore
    have hargument := readsBack argument h.2
    obtain ⟨f, ts, rfl, hkind, rfl, hmark, hrest⟩ := exists_of_marked_signed hm hbefore rfl
    have hsum : ∀ us, Marked (some .openBracket) (argument.words.map Word.kind) us →
        ∃ s : Sum us, s.exprs = [argument.normal] := by
      intro us hus
      obtain ⟨b, hb, -⟩ := hargument _ us hus nofun
      obtain ⟨s, hs⟩ := exists_sum_of_operand b
      exact ⟨s, by rw [hs, hb]⟩
    have hbracketed : Marked _ ((Sign.positive.words ++ Word.bracketed argument.words).map _) ts :=
      hrest
    obtain ⟨a, ha, -⟩ := exists_operand_of_bracketed hbracketed nofun hsum
    refine ⟨.call function hkind a, ?_, hmark⟩
    change call function a.expr f.sign = _
    rw [ha]
    rfl
  | sum terms sign =>
    intro before tokens hm hbefore
    have hterms := allReadBack terms h
    exact exists_operand_of_bracketed hm hbefore fun ts hts => exists_sum_of_terms hterms hts
  | product [] sign =>
    intro before tokens hm hbefore
    refine exists_operand_of_bracketed hm hbefore fun ts hts => ?_
    obtain ⟨t, us, rfl, hkind, hsign, -, hrest⟩ := hts.of_token rfl
    obtain rfl := hrest.eq_nil
    obtain ⟨s, hs⟩ := exists_sum_of_operand (.number 1 hkind)
    exact ⟨s, by rw [hs, Operand.expr, hsign, if_neg nofun]⟩
  | product [e] sign =>
    intro before tokens hm hbefore
    have he := readsBack e h.2.1
    refine exists_operand_of_bracketed hm hbefore fun ts hts => ?_
    rw [wordsJoined, wordsAfter, List.append_nil] at hts
    obtain ⟨a, ha, -⟩ := he _ ts hts nofun
    obtain ⟨s, hs⟩ := exists_sum_of_operand a
    exact ⟨s, by rw [hs, ha]⟩
  | product (e :: e' :: es) sign =>
    intro before tokens hm hbefore
    have hfactors := allReadBack (e :: e' :: es) h.2
    exact exists_operand_of_bracketed hm hbefore fun ts hts => exists_sum_of_factors hfactors hts
  | power operands sign =>
    intro before tokens hm hbefore
    have hoperands := allReadBack operands h.2.2
    refine exists_operand_of_bracketed hm hbefore fun ts hts => ?_
    match operands, h.2.1, hoperands, hts with
    | e :: e' :: es, _, hoperands, hts => exact exists_sum_of_operands hoperands hts
termination_by structural e

theorem allReadBack (es : List Expr) (h : AllWellFormed es) : ∀ e ∈ es, e.ReadsBack := by
  match es with
  | [] => exact List.forall_mem_nil _
  | e :: es => exact List.forall_mem_cons.mpr ⟨readsBack e h.1, allReadBack es h.2⟩
termination_by structural es

end

/-- The words of an expression do not end in a sign. -/
theorem exists_getLast?_words (e : Expr) :
    ∃ k, (e.words.map Word.kind).getLast? = some k ∧ k.isSign = false := by
  have hbracketed : ∀ (ws vs : List Word),
      ((ws ++ Word.bracketed vs).map Word.kind).getLast? = some .closeBracket := by
    intro ws vs
    rw [Word.bracketed, ← List.cons_append, ← List.append_assoc, List.map_append,
      List.getLast?_append]
    rfl
  have hsigned : ∀ (sign : Sign) (w : Word),
      ((sign.words ++ [w]).map Word.kind).getLast? = some w.kind := by
    intro sign w
    rw [List.map_append, List.getLast?_append]
    rfl
  cases e with
  | literal x sign =>
    rw [words, literalWords]
    split
    · exact ⟨_, hbracketed _ _, rfl⟩
    · split
      · exact ⟨_, hbracketed _ _, rfl⟩
      · exact ⟨_, hsigned _ _, rfl⟩
  | var name sign => exact ⟨_, hsigned _ _, rfl⟩
  | call function argument sign =>
    rw [words, ← List.singleton_append, ← List.append_assoc]
    exact ⟨_, hbracketed _ _, rfl⟩
  | sum es sign | power es sign => exact ⟨_, hbracketed _ _, rfl⟩
  | product es sign =>
    cases es with
    | nil => exact ⟨_, hbracketed _ _, rfl⟩
    | cons e es => exact ⟨_, hbracketed _ _, rfl⟩

end Expr

/-! ## Compiling the text -/

/-- The tokens of the text of a well-formed expression derive as its normal form. -/
theorem exists_derivation_of_text {e : Expr} (h : e.WellFormed) :
    ∃ tokens, tokenize e.text = .ok tokens ∧
      ∃ d : Grammar.Sum tokens, d.expr = .sum [e.normal] .positive := by
  obtain ⟨scanned, hscan, hkinds, hplain⟩ := exists_scan_text h
  obtain ⟨last, hlast, hsign⟩ := e.exists_getLast?_words
  obtain ⟨tokens, hfold, hmarked⟩ :=
    Token.exists_foldSignsAfter none hplain (by
      rw [hkinds, Option.map_none, Option.or_none, hlast]
      exact fun k hk => Option.some.inj hk ▸ hsign)
  rw [hkinds] at hmarked
  obtain ⟨a, ha, -⟩ := Expr.readsBack e h _ tokens hmarked nofun
  obtain ⟨d, hd⟩ := exists_sum_of_operand a
  exact ⟨tokens, bind_eq_ok.mpr ⟨scanned, hscan, hfold⟩, d, by rw [Sum.expr, hd, ha]⟩

/-- The text of a compiled expression compiles to its normal form in a sum, as soon as the nesting
limit reaches the length of the text. -/
theorem compile_text {limits limits' : Limits} {line : String} {e : Expr}
    (h : compile limits line = .ok e) (hdepth : e.text.length ≤ limits'.maxDepth)
    (hword : limits'.maxDepth ≤ Limits.ceiling) :
    compile limits' e.text = .ok (.sum [e.normal] .positive) := by
  obtain ⟨tokens, htokens, d, hd⟩ := exists_derivation_of_text (wellFormed_of_compile h)
  have hlength := Nat.le_trans (length_tokenize_le htokens) hdepth
  rw [← hd]
  exact compile_of_derivation htokens hlength (Nat.le_trans hlength hword) d

/-- A quotient by a negative numeral, whose inverse is written as a power in brackets of its own. -/
theorem compile_text_quotient :
    ∃ e, compile .standard "-(2/-3)" = .ok e ∧ e.text.length ≤ Limits.standard.maxDepth ∧
      Limits.standard.maxDepth ≤ Limits.ceiling ∧
      compile .standard e.text = .ok (.sum [e.normal] .positive) := by
  have hcompile : (compile .standard "-(2/-3)").toOption.map Expr.text =
      some "(-((2*(-3^-1))))" := by decide +kernel
  obtain ⟨e, he, htext⟩ := Option.map_eq_some_iff.mp hcompile
  have he' := toOption_eq_some.mp he
  have hdepth : e.text.length ≤ Limits.standard.maxDepth := by
    rw [htext]
    decide
  have hword : Limits.standard.maxDepth ≤ Limits.ceiling := by decide
  exact ⟨e, he', hdepth, hword, compile_text he' hdepth hword⟩

end Reckon
