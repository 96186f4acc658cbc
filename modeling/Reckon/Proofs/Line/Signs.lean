import Mathlib.Data.List.TakeWhile
import Reckon.Proofs.Grammar.Compile
import Reckon.Proofs.Line.Bare
import Reckon.Proofs.Token.Lexemes

/-!
# Signs before no operand

A sign marks the token after it, whatever this is, but the mark is read only where an operand
starts. So a sign before an operator or a closing bracket does nothing: a line compiles exactly as
it does without these signs, and then every sign that is left leads to an operand
(`compile_withoutIdleSigns`). Only a sign at the end of a line is found to be without an operand.
-/

namespace Reckon

namespace Line

/-! ## Signs in a line -/

/-- Whether a character is a sign. -/
def isSign (c : Char) : Bool := c == '+' || c == '-'

/-- Whether an operand starts with a character: a digit or a point, a letter or an opening
bracket. -/
def startsOperand (c : Char) : Bool :=
  Decimal.isNumeralChar c || c.isAlpha || ['(', '{', '['].contains c

/-- Whether a character comes after an operand: an operator between operands or a closing
bracket. -/
def followsOperand (c : Char) : Bool := ['*', '/', '^', ')', '}', ']'].contains c

/-- Whether each sign of a line stands in a run of signs right before an operand. -/
def SignsLead (line : List Char) : Prop :=
  ∀ before s after, line = before ++ s :: after → isSign s = true →
    ∃ signs c rest, after = signs ++ c :: rest ∧ (∀ x ∈ signs, isSign x = true) ∧
      startsOperand c = true

/-- A line without the signs that stand in a run of signs right before an operator or a closing
bracket. -/
def withoutIdleSigns : List Char → List Char
  | [] => []
  | c :: rest =>
    let kept := withoutIdleSigns rest
    if isSign c && kept.head?.any followsOperand then kept else c :: kept

theorem isSign_iff {c : Char} : isSign c = true ↔ c = '+' ∨ c = '-' := by
  simp [isSign]

theorem followsOperand_iff {c : Char} : followsOperand c = true ↔
    c = '*' ∨ c = '/' ∨ c = '^' ∨ c = ')' ∨ c = '}' ∨ c = ']' := by
  simp [followsOperand]

theorem followsOperand_of_isSign {c : Char} (h : isSign c = true) : followsOperand c = false := by
  rcases isSign_iff.mp h with rfl | rfl <;> rfl

theorem followsOperand_of_startsOperand {c : Char} (h : startsOperand c = true) :
    followsOperand c = false := by
  rw [Bool.eq_false_iff]
  intro hfollows
  rcases followsOperand_iff.mp hfollows with rfl | rfl | rfl | rfl | rfl | rfl <;>
    (revert h; decide)

/-- If each sign leads to an operand, none is idle. -/
theorem SignsLead.withoutIdleSigns_eq {line : List Char} (h : SignsLead line) :
    withoutIdleSigns line = line := by
  induction line with
  | nil => rfl
  | cons c rest ih =>
    have hrest : SignsLead rest := fun before s after heq =>
      h (c :: before) s after (congrArg (c :: ·) heq)
    rw [withoutIdleSigns, ih hrest]
    cases hsign : isSign c with
    | false => rfl
    | true =>
      obtain ⟨signs, d, more, rfl, hsigns, hd⟩ := h [] c rest rfl hsign
      have hhead : (signs ++ d :: more).head?.any followsOperand = false := by
        cases signs with
        | nil => exact followsOperand_of_startsOperand hd
        | cons x signs => exact followsOperand_of_isSign (hsigns x List.mem_cons_self)
      rw [hhead]
      rfl

/-- No sign that is left stands right before an operator or a closing bracket. -/
theorem isChain_withoutIdleSigns (line : List Char) :
    (withoutIdleSigns line).IsChain fun c d => isSign c = true → followsOperand d = false := by
  induction line with
  | nil => exact .nil
  | cons c rest ih =>
    rw [withoutIdleSigns]
    split
    · exact ih
    · rename_i hkeep
      refine List.isChain_cons.mpr ⟨fun d hd hsign => ?_, ih⟩
      rw [hsign, Bool.true_and, Option.mem_def.mp hd] at hkeep
      exact Bool.eq_false_iff.mpr hkeep

/-- A sign is read as one. -/
theorem exists_kind_of_isSign {c : Char} (h : isSign c = true) :
    ∃ k, Token.Kind.ofSymbol? c = some k ∧ k.isSign = true := by
  rcases isSign_iff.mp h with rfl | rfl <;> exact ⟨_, rfl, rfl⟩

/-- What is read of an operator or a closing bracket starts no operand. -/
theorem exists_kind_of_followsOperand {c : Char} (h : followsOperand c = true) :
    ∃ k, Token.Kind.ofSymbol? c = some k ∧ k.startsOperand = false := by
  rcases followsOperand_iff.mp h with rfl | rfl | rfl | rfl | rfl | rfl <;> exact ⟨_, rfl, rfl⟩

end Line

/-! ## Signs and tokens -/

namespace Token

theorem isSymbol_of_isSign {c : Char} (h : Line.isSign c = true) : IsSymbol c := by
  rcases Line.isSign_iff.mp h with rfl | rfl <;> decide

theorem isSign_of_reads {c : Char} {k : Kind} (h : Reads [c] k) (hc : Line.isSign c = true) :
    k.isSign = true := by
  have hk := ofSymbol?_of_reads h (isSymbol_of_isSign hc)
  rcases Line.isSign_iff.mp hc with rfl | rfl <;> (obtain rfl := Option.some.inj hk; rfl)

/-- A character that can be read is a sign, starts an operand or follows one. -/
theorem sort_of_reads {word : List Char} {k : Kind} (h : Reads word k) {c : Char} (hc : c ∈ word) :
    Line.isSign c = true ∨ Line.startsOperand c = true ∨ Line.followsOperand c = true := by
  have halpha (h : c.isAlpha = true) : Line.startsOperand c = true := by
    simp [Line.startsOperand, h]
  have hnumeral (h : Decimal.isNumeralChar c = true) : Line.startsOperand c = true := by
    simp [Line.startsOperand, h]
  cases h with
  | function hupper hrest =>
    rcases List.mem_cons.mp hc with rfl | hc
    · exact .inr (.inl (halpha (isAlpha_iff.mpr (.inl hupper))))
    · exact .inr (.inl (halpha (hrest c hc)))
  | var hlower hrest =>
    rcases List.mem_cons.mp hc with rfl | hc
    · exact .inr (.inl (halpha (isAlpha_iff.mpr (.inr hlower))))
    · exact .inr (.inl (halpha (hrest c hc)))
  | number hfirst hrest _ =>
    rcases List.mem_cons.mp hc with rfl | hc
    · exact .inr (.inl (hnumeral hfirst))
    · exact .inr (.inl (hnumeral (hrest c hc)))
  | symbol hk =>
    obtain rfl := List.mem_singleton.mp hc
    unfold Kind.ofSymbol? at hk
    split at hk <;> first | contradiction | decide

theorem bare_congr {t t' : Token} (hkind : t.kind = t'.kind) (hsign : t.sign = t'.sign)
    (hmark : t.explicitSign = t'.explicitSign) : t.bare = t'.bare := by
  obtain ⟨k, s, m, span⟩ := t
  obtain ⟨k', s', m', span'⟩ := t'
  obtain rfl : k = k' := hkind
  obtain rfl : s = s' := hsign
  obtain rfl : m = m' := hmark
  rfl

theorem bare_of_not_startsOperand {t : Token} (h : t.kind.startsOperand = false) :
    t.bare = plain t.kind ⟨0, 0⟩ := by
  rw [bare, h]
  rfl

namespace Marked

variable {before : Option Kind} {ks js : List Kind} {k s : Kind} {tokens tokens' : List Token}

/-- What marking leaves is decided up to the places. -/
theorem bare_eq (h : Marked before ks tokens) (h' : Marked before ks tokens') :
    tokens.map bare = tokens'.map bare := by
  induction h generalizing tokens' with
  | nil => rw [h'.eq_nil]
  | sign hk _ ih => exact ih (h'.of_sign hk)
  | token hk hkind hsign hmark _ ih =>
    obtain ⟨t', ts', rfl, hkind', hsign', hmark', hrest'⟩ := h'.of_token hk
    rw [List.map_cons, List.map_cons, ih hrest', bare_congr (hkind.trans hkind'.symm)
      (hsign.trans hsign'.symm) (hmark.trans hmark'.symm)]

/-- What comes after a row may change if that changes nothing that is read. -/
theorem bare_eq_behind {js' : List Kind}
    (hjs : ∀ before tokens tokens', Marked before js tokens → Marked before js' tokens' →
      tokens.map bare = tokens'.map bare) (h : Marked before (ks ++ js) tokens)
    (h' : Marked before (ks ++ js') tokens') : tokens.map bare = tokens'.map bare := by
  induction ks generalizing before tokens tokens' with
  | nil => exact hjs before tokens tokens' h h'
  | cons j ks ih =>
    cases hj : j.isSign with
    | true => exact ih (h.of_sign hj) (h'.of_sign hj)
    | false =>
      obtain ⟨t, ts, rfl, hkind, hsign, hmark, hrest⟩ := h.of_token hj
      obtain ⟨t', ts', rfl, hkind', hsign', hmark', hrest'⟩ := h'.of_token hj
      rw [List.map_cons, List.map_cons, ih hrest hrest', bare_congr (hkind.trans hkind'.symm)
        (hsign.trans hsign'.symm) (hmark.trans hmark'.symm)]

/-- A sign before anything that starts no operand leaves nothing that is read. -/
theorem bare_eq_of_idle (hs : s.isSign = true) (hidle : k.startsOperand = false)
    (h : Marked before (ks ++ s :: k :: js) tokens) (h' : Marked before (ks ++ k :: js) tokens') :
    tokens.map bare = tokens'.map bare := by
  refine bare_eq_behind (fun before tokens tokens' h h' => ?_) h h'
  cases hk : k.isSign with
  | true => exact ((h.of_sign hs).of_sign hk).bare_eq (h'.of_sign hk)
  | false =>
    obtain ⟨t, ts, rfl, hkind, -, -, hrest⟩ := (h.of_sign hs).of_token hk
    obtain ⟨t', ts', rfl, hkind', -, -, hrest'⟩ := h'.of_token hk
    rw [List.map_cons, List.map_cons, hrest.bare_eq hrest',
      bare_of_not_startsOperand (by rwa [hkind]), bare_of_not_startsOperand (by rwa [hkind']),
      hkind, hkind']

end Marked

end Token

namespace Line

open Token (Kind Reads Marked)

/-! ## One idle sign -/

variable {before after : List Char} {s d : Char}

/-- A sign may be left out before a symbol that starts no operand. -/
theorem toOption_compile_idle (limits : Limits) {k : Kind} (hs : isSign s = true)
    (hd : Kind.ofSymbol? d = some k) (hidle : k.startsOperand = false) :
    (compile limits (String.ofList (before ++ s :: d :: after))).toOption =
      (compile limits (String.ofList (before ++ d :: after))).toOption := by
  obtain ⟨sign, hsign, hissign⟩ := exists_kind_of_isSign hs
  have hreads {kinds : List Kind} : List.Forall₂ Reads (lexemes (d :: after)) kinds ↔
      ∃ js, kinds = k :: js ∧ List.Forall₂ Reads (lexemes after) js := by
    rw [← List.nil_append (d :: after), Token.forall₂_reads_symbol_iff hd]
    constructor
    · rintro ⟨ks, js, rfl, hnil, hjs⟩
      obtain rfl := List.forall₂_nil_left_iff.mp hnil
      exact ⟨js, rfl, hjs⟩
    · rintro ⟨js, rfl, hjs⟩
      exact ⟨[], js, rfl, .nil, hjs⟩
  refine toOption_compile_of_kinds (R := fun kinds kinds' => ∃ ks js,
    kinds = ks ++ sign :: k :: js ∧ kinds' = ks ++ k :: js) ?_ ?_ ?_ ?_
  · intro kinds h
    obtain ⟨ks, rest, rfl, hks, hrest⟩ := (Token.forall₂_reads_symbol_iff hsign).mp h
    obtain ⟨js, rfl, hjs⟩ := hreads.mp hrest
    exact ⟨ks ++ k :: js, (Token.forall₂_reads_symbol_iff hd).mpr ⟨ks, js, rfl, hks, hjs⟩,
      ks, js, rfl, rfl⟩
  · intro kinds' h
    obtain ⟨ks, js, rfl, hks, hjs⟩ := (Token.forall₂_reads_symbol_iff hd).mp h
    exact ⟨ks ++ sign :: k :: js, (Token.forall₂_reads_symbol_iff hsign).mpr
      ⟨ks, k :: js, rfl, hks, hreads.mpr ⟨js, rfl, hjs⟩⟩, ks, js, rfl, rfl⟩
  · rintro _ _ ⟨ks, js, rfl, rfl⟩
    simp [List.getLast?_append, List.getLast?_cons]
  · rintro _ _ ⟨ks, js, rfl, rfl⟩ tokens tokens' h h'
    exact Expr.ofTokens?_congr (h.bare_eq_of_idle hissign hidle h')

/-! ## All idle signs -/

/-- Idle signs may be left out from any place of a line on. -/
theorem toOption_compile_withoutIdleSigns (limits : Limits) (before line : List Char) :
    (compile limits (String.ofList (before ++ line))).toOption =
      (compile limits (String.ofList (before ++ withoutIdleSigns line))).toOption := by
  induction line generalizing before with
  | nil => rfl
  | cons c rest ih =>
    have hrest := ih (before ++ [c])
    simp only [List.append_assoc, List.singleton_append] at hrest
    rw [hrest, withoutIdleSigns]
    split
    · rename_i hidle
      obtain ⟨hsign, hfollows⟩ := Bool.and_eq_true_iff.mp hidle
      cases hkept : withoutIdleSigns rest with
      | nil =>
        rw [hkept] at hfollows
        contradiction
      | cons d after =>
        rw [hkept] at hfollows
        obtain ⟨k, hk, hidle⟩ := exists_kind_of_followsOperand hfollows
        exact toOption_compile_idle limits hsign hk hidle
    · rfl

/-- A line that has tokens ends in no sign. -/
theorem not_isSign_of_tokenize {before : List Char} {c : Char} {tokens : List Token}
    (h : tokenize (String.ofList (before ++ [c])) = .ok tokens) : isSign c = false := by
  rw [Bool.eq_false_iff]
  intro hsign
  obtain ⟨kinds, hreads, hlast, -⟩ := exists_kinds_of_tokenize h
  have hlexemes : lexemes (before ++ [c]) = lexemes before ++ [[c]] :=
    lexemes_append_symbol before [] (Token.isSymbol_of_isSign hsign)
  rw [String.toList_ofList, hlexemes] at hreads
  obtain ⟨ks, js, rfl, -, hjs⟩ := Token.forall₂_reads_append hreads
  obtain ⟨k, js, hk, hnil, rfl⟩ := List.forall₂_cons_left_iff.mp hjs
  obtain rfl := List.forall₂_nil_left_iff.mp hnil
  have := hlast k (by simp)
  rw [Token.isSign_of_reads hk hsign] at this
  contradiction

theorem sort_of_tokenize {line : List Char} {tokens : List Token}
    (h : tokenize (String.ofList line) = .ok tokens) {c : Char} (hc : c ∈ line) :
    isSign c = true ∨ startsOperand c = true ∨ followsOperand c = true := by
  obtain ⟨kinds, hreads, -, -⟩ := exists_kinds_of_tokenize h
  rw [String.toList_ofList] at hreads
  rw [← flatten_lexemes line] at hc
  obtain ⟨word, hword, hc⟩ := List.mem_flatten.mp hc
  obtain ⟨k, -, hk⟩ := Token.exists_rel_of_mem hreads hword
  exact Token.sort_of_reads hk hc

/-- A line that has tokens ends in no run of signs. -/
theorem dropWhile_isSign_ne_nil {before after : List Char} {s : Char} {tokens : List Token}
    (h : tokenize (String.ofList (before ++ s :: after)) = .ok tokens) (hs : isSign s = true) :
    after.dropWhile isSign ≠ [] := by
  intro hrest
  have hsigns : ∀ x ∈ s :: after, isSign x = true :=
    List.forall_mem_cons.mpr ⟨hs, List.dropWhile_eq_nil_iff.mp hrest⟩
  obtain ⟨init, c, hinit⟩ : ∃ init c, s :: after = init ++ [c] :=
    ⟨_, _, (List.dropLast_append_getLast (List.cons_ne_nil s after)).symm⟩
  rw [hinit] at hsigns
  rw [hinit, ← List.append_assoc] at h
  have hlast := not_isSign_of_tokenize h
  rw [hsigns c (by simp)] at hlast
  contradiction

/-- Where no sign is idle, what comes after a run of signs follows no operand. -/
theorem followsOperand_of_run {signs rest : List Char} {s c : Char}
    (hchain : (s :: (signs ++ c :: rest)).IsChain fun c d =>
      isSign c = true → followsOperand d = false)
    (hs : isSign s = true) (hsigns : ∀ x ∈ signs, isSign x = true) :
    followsOperand c = false := by
  induction signs generalizing s with
  | nil => exact (List.isChain_cons_cons.mp hchain).1 hs
  | cons x signs ih =>
    rw [List.forall_mem_cons] at hsigns
    exact ih (List.isChain_cons_cons.mp hchain).2 hsigns.1 hsigns.2

/-- In a line that has tokens, signs lead to operands as soon as none of them is idle. -/
theorem signsLead_of_tokenize {line : List Char} {tokens : List Token}
    (h : tokenize (String.ofList line) = .ok tokens)
    (hchain : line.IsChain fun c d => isSign c = true → followsOperand d = false) :
    SignsLead line := by
  rintro before s after rfl hs
  obtain ⟨c, rest, hrest⟩ := List.exists_cons_of_ne_nil (dropWhile_isSign_ne_nil h hs)
  have hafter : after.takeWhile isSign ++ c :: rest = after := by
    rw [← hrest, List.takeWhile_append_dropWhile]
  have hsigns : ∀ x ∈ after.takeWhile isSign, isSign x = true :=
    fun x hx => List.mem_takeWhile_imp hx
  have hnot : isSign c = false := by
    have hhead := List.head?_dropWhile_not isSign after
    rwa [hrest] at hhead
  have hfollows : followsOperand c = false := by
    have hrun := hchain.right_of_append
    rw [← hafter] at hrun
    exact followsOperand_of_run hrun hs hsigns
  have hmem : c ∈ before ++ s :: after := by
    rw [← hafter]
    simp
  refine ⟨after.takeWhile isSign, c, rest, hafter.symm, hsigns, ?_⟩
  rcases sort_of_tokenize h hmem with hsign | hstarts | hfollows'
  · rw [hnot] at hsign
    contradiction
  · exact hstarts
  · rw [hfollows] at hfollows'
    contradiction

end Line

theorem exists_tokenize_of_compile {limits : Limits} {line : String} {e : Expr}
    (h : compile limits line = .ok e) : ∃ tokens, tokenize line = .ok tokens := by
  obtain ⟨tokens, -, htokens, -⟩ := compile_eq_ok.mp h
  exact ⟨tokens, htokens⟩

/-- Idle signs are lost without notice: with and without them a line compiles to the same
expression. If it does, then without them each sign leads to an operand, so in the line itself
each sign does so exactly if none is idle. -/
theorem compile_withoutIdleSigns (limits : Limits) (line : String) (e : Expr) :
    (compile limits line = .ok e ↔
      compile limits (String.ofList (Line.withoutIdleSigns line.toList)) = .ok e) ∧
    (compile limits line = .ok e →
      Line.SignsLead (Line.withoutIdleSigns line.toList) ∧
      (Line.SignsLead line.toList ↔ Line.withoutIdleSigns line.toList = line.toList)) := by
  have hsame : compile limits line = .ok e ↔
      compile limits (String.ofList (Line.withoutIdleSigns line.toList)) = .ok e := by
    have := Line.toOption_compile_withoutIdleSigns limits [] line.toList
    rw [List.nil_append, List.nil_append, String.ofList_toList] at this
    rw [← toOption_eq_some, ← toOption_eq_some, this]
  refine ⟨hsame, fun h => ?_⟩
  obtain ⟨tokens, htokens⟩ := exists_tokenize_of_compile (hsame.mp h)
  have hlead := Line.signsLead_of_tokenize htokens (Line.isChain_withoutIdleSigns line.toList)
  exact ⟨hlead, Line.SignsLead.withoutIdleSigns_eq, fun heq => heq ▸ hlead⟩

/-- A sign is lost before a closing bracket, and one before an operator. -/
theorem compile_withoutIdleSigns_product :
    ∃ e, e.text = "(((1)*2))" ∧ compile .standard "(1-)-*2" = .ok e ∧
      compile .standard "(1)*2" = .ok e ∧ ¬Line.SignsLead "(1-)-*2".toList := by
  have hcompile : (compile .standard "(1-)-*2").toOption.map Expr.text = some "(((1)*2))" := by
    decide +kernel
  obtain ⟨e, he, htext⟩ := Option.map_eq_some_iff.mp hcompile
  have he := toOption_eq_some.mp he
  obtain ⟨hsame, hsigns⟩ := compile_withoutIdleSigns .standard "(1-)-*2" e
  have hkept : String.ofList (Line.withoutIdleSigns "(1-)-*2".toList) = "(1)*2" := by
    decide +kernel
  refine ⟨e, htext, he, hkept ▸ hsame.mp he, fun hlead => ?_⟩
  have hkeeps := (hsigns he).2.mp hlead
  revert hkeeps
  decide +kernel

end Reckon
