import Reckon.Proofs.Token.Places

/-!
# A sign marks the next token only

What folding makes of a token is decided by the token directly before it, and by nothing else: not
by the signs before that one, and not by how the signs themselves are marked
(`foldSigns_predecessor`). A pass that keeps the last sign as pending, and marks it by the sign
before it like any other token, gives the same tokens (`Folding.run_eq`). In a line the token
directly before is a sign exactly if the character is, so that a look at this character is enough.
-/

namespace Reckon

namespace Token

/-- A token as the one directly before it leaves it. -/
def follow (before : Option Token) (t : Token) : Token where
  kind := t.kind
  sign := if before.map kind = some .minus then .negative else t.sign
  explicitSign := (before.map kind).any Kind.isSign || t.explicitSign
  span := t.span

/-- Tokens, each one as the one directly before it leaves it, where `before` is before the first. -/
def followed (before : Option Token) (tokens : List Token) : List Token :=
  List.zipWith follow (before :: tokens.map some) tokens

/-- A token without its sign and its mark if it is a sign itself. -/
def unmarkedSign (t : Token) : Token := if t.kind.isSign then plain t.kind t.span else t

theorem signedBy_eq_follow (before : Option Token) (t : Token) :
    t.signedBy before = follow before t := by
  rw [follow, ← sign_signedBy, ← explicitSign_signedBy]
  conv_rhs => rw [← kind_signedBy before t, ← span_signedBy before t]

/-! ## What folding leaves -/

section Fold

variable {before : Option Token} {tokens folded : List Token} {cause : LexError}

theorem eq_filter_of_foldSignsAfter (h : foldSignsAfter before tokens = .ok folded) :
    folded = (followed before tokens).filter (!·.kind.isSign) := by
  induction tokens generalizing before folded with
  | nil =>
    cases before with
    | none => exact (Except.ok.inj h).symm
    | some t =>
      rw [foldSignsAfter] at h
      split at h
      · contradiction
      · exact (Except.ok.inj h).symm
  | cons t rest ih =>
    obtain ⟨others, hothers, h⟩ := bind_eq_ok.mp h
    obtain rfl := Except.ok.inj h
    have hsplit : followed before (t :: rest) = follow before t :: followed (some t) rest := rfl
    have hkind : (follow before t).kind = t.kind := rfl
    rw [hsplit, List.filter_cons, hkind, ← ih hothers, signedBy_eq_follow]
    cases t.kind.isSign <;> rfl

theorem foldSigns_eq_error_iff : foldSigns tokens = .error cause ↔
    ∃ t, tokens.getLast? = some t ∧ t.kind.isSign = true ∧ cause = .danglingSign t.span := by
  constructor
  · intro h
    obtain ⟨t, ht, hsign, hcause⟩ := exists_last_of_foldSignsAfter h
    rw [Option.or_none] at ht
    exact ⟨t, ht, hsign, hcause⟩
  · rintro ⟨t, ht, hsign, rfl⟩
    cases h : foldSigns tokens with
    | ok folded =>
      have hlast := last_of_foldSignsAfter h t (by rw [ht]; rfl)
      rw [hsign] at hlast
      contradiction
    | error cause =>
      obtain ⟨t', ht', -, rfl⟩ := exists_last_of_foldSignsAfter h
      rw [Option.or_none, ht] at ht'
      obtain rfl := Option.some.inj ht'
      rfl

theorem foldSigns_eq_ok_iff : foldSigns tokens = .ok folded ↔
    (∀ t ∈ tokens.getLast?, t.kind.isSign = false) ∧
      folded = (followed none tokens).filter (!·.kind.isSign) := by
  constructor
  · intro h
    refine ⟨fun t ht => last_of_foldSignsAfter h t ?_, eq_filter_of_foldSignsAfter h⟩
    rwa [Option.or_none]
  · rintro ⟨hlast, rfl⟩
    cases h : foldSigns tokens with
    | ok folded => rw [eq_filter_of_foldSignsAfter h]
    | error cause =>
      obtain ⟨t, ht, hsign, -⟩ := foldSigns_eq_error_iff.mp h
      rw [hlast t ht] at hsign
      contradiction

end Fold

/-! ## Marks on signs -/

@[simp] theorem kind_unmarkedSign (t : Token) : t.unmarkedSign.kind = t.kind := by
  unfold unmarkedSign
  split <;> rfl

@[simp] theorem span_unmarkedSign (t : Token) : t.unmarkedSign.span = t.span := by
  unfold unmarkedSign
  split <;> rfl

theorem signedBy_unmarkedSign (before : Option Token) (t : Token) :
    t.signedBy (before.map unmarkedSign) = t.signedBy before := by
  have hkind : (before.map unmarkedSign).map kind = before.map kind := by
    rw [Option.map_map]
    exact congrArg (before.map ·) (funext kind_unmarkedSign)
  rw [signedBy, signedBy, hkind]

/-- Folding does not look at how signs are marked. -/
theorem foldSignsAfter_unmarkedSign (before : Option Token) (tokens : List Token) :
    foldSignsAfter (before.map unmarkedSign) (tokens.map unmarkedSign) =
      foldSignsAfter before tokens := by
  induction tokens generalizing before with
  | nil =>
    cases before with
    | none => rfl
    | some t => simp [foldSignsAfter]
  | cons t rest ih =>
    have hrest := ih (some t)
    rw [Option.map_some] at hrest
    rw [List.map_cons, foldSignsAfter, foldSignsAfter, hrest, kind_unmarkedSign,
      signedBy_unmarkedSign]
    cases hsign : t.kind.isSign with
    | true => simp
    | false => simp [unmarkedSign, hsign]

theorem foldSigns_congr {tokens tokens' : List Token}
    (h : tokens.map unmarkedSign = tokens'.map unmarkedSign) :
    foldSigns tokens = foldSigns tokens' := by
  have htokens := foldSignsAfter_unmarkedSign none tokens
  rw [h] at htokens
  exact htokens.symm.trans (foldSignsAfter_unmarkedSign none tokens')

end Token

/-! ## One pass with a pending sign -/

/-- A pass over tokens: those that are done, and the sign that is pending, as the one before it left
it. -/
structure Folding where
  pushed : List Token
  pending : Option Token

namespace Folding

/-- The next token takes the pending sign. It is pending itself if it is a sign. -/
def step (s : Folding) (t : Token) : Folding :=
  let marked : Token :=
    match s.pending with
    | some mark =>
      { t with explicitSign := true, sign := if mark.kind = .minus then .negative else t.sign }
    | none => t
  if marked.kind.isSign then { s with pending := some marked } else ⟨s.pushed ++ [marked], none⟩

/-- The tokens that are done, unless a sign is pending. -/
def finish (s : Folding) : Except LexError (List Token) :=
  match s.pending with
  | some mark => .error (.danglingSign mark.span)
  | none => .ok s.pushed

/-- A pass over all tokens. -/
def run (tokens : List Token) : Except LexError (List Token) :=
  (tokens.foldl step ⟨[], none⟩).finish

/-- Whether the pending sign is the token `before`, except for how it is marked. -/
inductive Holds : Folding → Option Token → Prop where
  | idle {pushed : List Token} {before : Option Token}
      (h : ∀ t ∈ before, t.kind.isSign = false) : Holds ⟨pushed, none⟩ before
  | pending {pushed : List Token} {mark t : Token} (hsign : t.kind.isSign = true)
      (hkind : mark.kind = t.kind) (hspan : mark.span = t.span) :
      Holds ⟨pushed, some mark⟩ (some t)

section Steps

variable {s : Folding} {before : Option Token}

/-- The pending sign marks a token as the sign directly before it does. -/
theorem step_eq (h : s.Holds before) (t : Token) :
    s.step t = if t.kind.isSign then ⟨s.pushed, some (t.signedBy before)⟩
      else ⟨s.pushed ++ [t.signedBy before], none⟩ := by
  rw [Token.signedBy_eq_follow]
  cases h with
  | @idle _ before hbefore =>
    have hfollow : Token.follow before t = t := by
      cases before with
      | none => rfl
      | some u =>
        have hu := hbefore u rfl
        have hminus : u.kind ≠ .minus := by
          intro heq
          rw [heq] at hu
          contradiction
        simp [Token.follow, hu, hminus]
    rw [hfollow, step]
  | @pending _ mark u hsign hkind _ =>
    simp [step, Token.follow, hsign, hkind]

theorem holds_step (h : s.Holds before) (t : Token) : (s.step t).Holds (some t) := by
  rw [step_eq h]
  cases hsign : t.kind.isSign with
  | true => exact .pending hsign (Token.kind_signedBy before t) (Token.span_signedBy before t)
  | false =>
    refine .idle fun u hu => ?_
    obtain rfl := Option.some.inj hu
    exact hsign

theorem finish_foldl (h : s.Holds before) (tokens : List Token) :
    (tokens.foldl step s).finish = (Token.foldSignsAfter before tokens).map (s.pushed ++ ·) := by
  induction tokens generalizing s before with
  | nil =>
    cases h with
    | @idle pushed before hbefore =>
      have hnil : Token.foldSignsAfter before [] = .ok [] := by
        cases before with
        | none => rfl
        | some t => rw [Token.foldSignsAfter, if_neg (by simp [hbefore t])]
      rw [hnil]
      simp [finish, Except.map]
    | pending hsign _ hspan => simp [finish, Token.foldSignsAfter, hsign, hspan, Except.map]
  | cons t rest ih =>
    rw [List.foldl_cons, ih (holds_step h t), step_eq h, Token.foldSignsAfter]
    cases t.kind.isSign <;> cases Token.foldSignsAfter (some t) rest <;>
      simp [Except.map, bind, Except.bind, pure, Except.pure]

end Steps

theorem run_eq (tokens : List Token) : run tokens = Token.foldSigns tokens := by
  have hstart : Holds ⟨[], none⟩ none := .idle fun t ht => by contradiction
  rw [run, finish_foldl hstart, Token.foldSigns]
  cases Token.foldSignsAfter none tokens <;> rfl

end Folding

namespace Token

/-! ## Signs in the text -/

/-- Whether the last character of a text is a sign exactly if the last token of it is this sign. -/
structure EndsAlike (last : Option Kind) (text : List Char) : Prop where
  plus : last = some .plus ↔ text.getLast? = some '+'
  minus : last = some .minus ↔ text.getLast? = some '-'

theorem endsAlike_nil : EndsAlike ((none : Option Token).map kind) [] where
  plus := by simp
  minus := by simp

/-- A value is no sign, and neither is its last character. -/
theorem endsAlike_of_isValue {k : Kind} {word : List Char} (hk : k.isValue = true)
    (h : ∀ c ∈ word, ¬IsSymbol c) : EndsAlike (some k) word := by
  have hchar (c : Char) (hc : IsSymbol c) : word.getLast? ≠ some c := fun hlast =>
    h c (List.mem_of_getLast? hlast) hc
  constructor
  · refine iff_of_false ?_ (hchar '+' (by decide))
    rintro ⟨rfl⟩
    contradiction
  · refine iff_of_false ?_ (hchar '-' (by decide))
    rintro ⟨rfl⟩
    contradiction

theorem endsAlike_of_ofSymbol? {c : Char} {k : Kind} (h : Kind.ofSymbol? c = some k) :
    EndsAlike (some k) [c] := by
  unfold Kind.ofSymbol? at h
  split at h
  case h_12 => contradiction
  all_goals
    obtain rfl := Option.some.inj h
    exact ⟨by simp, by simp⟩

theorem endsAlike_of_reads {word : List Char} {k : Kind} (h : Reads word k) :
    EndsAlike (some k) word := by
  obtain ⟨hvalue, hword⟩ | ⟨c, rfl, hc⟩ := h.letters_or_numeral_or_symbol
  · refine endsAlike_of_isValue hvalue fun c hc hsymbol => ?_
    obtain ⟨halpha, hdigit⟩ := hsymbol
    rcases hword with hletters | hnumeral
    · simp [hletters c hc] at halpha
    · simp [hnumeral c hc] at hdigit
  · exact endsAlike_of_ofSymbol? hc

theorem EndsAlike.append {last : Option Kind} {word : List Char} (h : EndsAlike last word)
    (hword : word ≠ []) (before : List Char) : EndsAlike last (before ++ word) := by
  have hlast := List.getLast?_append_of_ne_nil before hword
  exact ⟨hlast ▸ h.plus, hlast ▸ h.minus⟩

theorem any_isSign_iff {k : Option Kind} :
    k.any Kind.isSign = true ↔ k = some .plus ∨ k = some .minus := by
  cases k with
  | none => simp
  | some k => cases k <;> simp [Kind.isSign]

/-- Each token behind some text is marked by the character directly before it. -/
theorem exists_of_mem_followed {before : Option Token} {text line : List Char}
    {tokens : List Token} (htiles : Tiles text.length line tokens)
    (hplain : ∀ t ∈ tokens, t.IsPlain) (htext : EndsAlike (before.map kind) text) {t : Token}
    (ht : t ∈ followed before tokens) :
    ∃ front rest, text ++ line = front ++ rest ∧ front.length = t.span.start ∧
      (t.explicitSign = true ↔ front.getLast? = some '+' ∨ front.getLast? = some '-') ∧
      (t.sign = .negative ↔ front.getLast? = some '-') := by
  induction tokens generalizing before text line with
  | nil => contradiction
  | cons s others ih =>
    rw [List.forall_mem_cons] at hplain
    cases htiles with
    | @cons _ word line _ _ hword hspan hrest =>
      rcases List.mem_cons.mp ht with rfl | ht
      · have hstart : (follow before s).span.start = text.length := by rw [follow, hspan]
        refine ⟨text, word ++ line, rfl, hstart.symm, ?_, ?_⟩
        · rw [← htext.plus, ← htext.minus, ← any_isSign_iff, follow, hplain.1.2, Bool.or_false]
        · rw [← htext.minus, follow, hplain.1.1]
          split <;> simp [*]
      · have hends : EndsAlike ((some s).map kind) (text ++ word) :=
          (endsAlike_of_reads hword).append hword.ne_nil text
        rw [← List.length_append] at hrest
        rw [← List.append_assoc]
        exact ih hrest hplain.2 hends ht

/-- The last character of a stretch of a line, by its place. -/
theorem getLast?_eq_some_iff_getElem? {text front rest : List Char} (h : text = front ++ rest)
    (c : Char) :
    front.getLast? = some c ↔ 0 < front.length ∧ text[front.length - 1]? = some c := by
  rw [h, List.getLast?_eq_getElem?]
  rcases Nat.eq_zero_or_pos front.length with hzero | hpos
  · simp [List.length_eq_zero_iff.mp hzero]
  · rw [List.getElem?_append_left (by omega)]
    exact (and_iff_right hpos).symm

/-- How a token of a line is marked can be read off the character directly before it. -/
theorem marks_of_mem_tokenize {line : String} {folded : List Token}
    (h : tokenize line = .ok folded) {t : Token} (ht : t ∈ folded) :
    (t.explicitSign = true ↔ 0 < t.span.start ∧
      ∃ c, line.toList[t.span.start - 1]? = some c ∧ (c = '+' ∨ c = '-')) ∧
    (t.sign = .negative ↔
      0 < t.span.start ∧ line.toList[t.span.start - 1]? = some '-') := by
  obtain ⟨scanned, hscan, hfold⟩ := bind_eq_ok.mp h
  have hplain := (forall₂_reads_of_ofLexemes (fun word => ne_nil_of_mem_lexemes)
    (fun word => run_of_mem_lexemes) hscan).2
  have htiles : Tiles ([] : List Char).length line.toList scanned := tiles_of_scan hscan
  rw [eq_filter_of_foldSignsAfter hfold] at ht
  obtain ⟨front, rest, hline, hstart, hmark, hsign⟩ :=
    exists_of_mem_followed htiles hplain endsAlike_nil (List.mem_filter.mp ht).1
  rw [List.nil_append] at hline
  have hlast := getLast?_eq_some_iff_getElem? hline
  rw [hstart] at hlast
  refine ⟨?_, hsign.trans (hlast '-')⟩
  rw [hmark, hlast '+', hlast '-', ← and_or_left]
  refine and_congr_right fun _ => ⟨?_, ?_⟩
  · rintro (hplus | hminus)
    · exact ⟨'+', hplus, .inl rfl⟩
    · exact ⟨'-', hminus, .inr rfl⟩
  · rintro ⟨c, hc, rfl | rfl⟩
    · exact .inl hc
    · exact .inr hc

/-- Folding signs fails exactly at a last token that is one. Otherwise it keeps all tokens that are
none, each one marked by the token directly before it, whatever marks the signs themselves have. In
a line this is the character directly before the token. -/
theorem foldSigns_predecessor :
    (∀ tokens : List Token,
      Folding.run tokens = foldSigns tokens ∧
      (∀ cause, foldSigns tokens = .error cause ↔
        ∃ t, tokens.getLast? = some t ∧ t.kind.isSign = true ∧ cause = .danglingSign t.span) ∧
      (∀ folded, foldSigns tokens = .ok folded ↔
        (∀ t ∈ tokens.getLast?, t.kind.isSign = false) ∧
          folded = (followed none tokens).filter (!·.kind.isSign)) ∧
      ∀ tokens', tokens.map unmarkedSign = tokens'.map unmarkedSign →
        foldSigns tokens = foldSigns tokens') ∧
    ∀ line folded, tokenize line = .ok folded → ∀ t ∈ folded,
      (t.explicitSign = true ↔ 0 < t.span.start ∧
        ∃ c, line.toList[t.span.start - 1]? = some c ∧ (c = '+' ∨ c = '-')) ∧
      (t.sign = .negative ↔
        0 < t.span.start ∧ line.toList[t.span.start - 1]? = some '-') :=
  ⟨fun tokens => ⟨Folding.run_eq tokens, fun _ => foldSigns_eq_error_iff,
    fun _ => foldSigns_eq_ok_iff, fun _ => foldSigns_congr⟩,
    fun _ _ h _ => marks_of_mem_tokenize h⟩

/-- A plus behind a minus, in front of a token that was negative before, and a minus behind a plus
in a line. Only the last sign counts, and the marks on the signs do not. -/
theorem foldSigns_predecessor_mixed_signs :
    (let x : Token := ⟨.var "x", .negative, false, ⟨2, 3⟩⟩
      let minus : Token := ⟨.minus, .negative, true, ⟨0, 1⟩⟩
      let plus : Token := ⟨.plus, .negative, true, ⟨1, 2⟩⟩
      foldSigns [minus, plus, x] = .ok [{ x with explicitSign := true }] ∧
        foldSigns [minus, plus, x] = foldSigns [minus.unmarkedSign, plus.unmarkedSign, x]) ∧
    let y : Token := ⟨.var "y", .negative, true, ⟨4, 5⟩⟩
    tokenize "x*+-y" = .ok [.plain (.var "x") ⟨0, 1⟩, .plain .times ⟨1, 2⟩, y] ∧
      "x*+-y".toList[y.span.start - 1]? = some '-' := by
  have hline : tokenize "x*+-y" = .ok [.plain (.var "x") ⟨0, 1⟩, .plain .times ⟨1, 2⟩,
      ⟨.var "y", .negative, true, ⟨4, 5⟩⟩] := by decide +kernel
  obtain ⟨hlists, hlines⟩ := foldSigns_predecessor
  obtain ⟨-, -, hok, hmarks⟩ := hlists [⟨.minus, .negative, true, ⟨0, 1⟩⟩,
    ⟨.plus, .negative, true, ⟨1, 2⟩⟩, ⟨.var "x", .negative, false, ⟨2, 3⟩⟩]
  obtain ⟨-, hsign⟩ := hlines _ _ hline ⟨.var "y", .negative, true, ⟨4, 5⟩⟩ (by decide +kernel)
  exact ⟨⟨(hok _).mpr (by decide +kernel), hmarks _ (by decide +kernel)⟩, hline, (hsign.mp rfl).2⟩

end Token

end Reckon
