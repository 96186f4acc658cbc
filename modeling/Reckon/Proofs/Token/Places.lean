import Reckon.Proofs.Token.Lexemes

/-!
# The places of tokens

The tokens of a line lie behind one another without a gap, each one as wide as its lexeme (`Tiles`).
Folding signs moves none of them, so every token of a line is found in the line at its span
(`holds_of_tokenize`), and where a line cannot be split into tokens the span of the error shows the
lexeme that is wrong (`holds_of_tokenize_error`).
-/

namespace Reckon

namespace Span

/-- The characters of a line inside a span. -/
def cut (span : Span) (line : List Char) : List Char :=
  (line.drop span.start).take (span.stop - span.start)

/-- Whether `word` stands in a line at a span, with `after` behind it. -/
def Holds (span : Span) (line word after : List Char) : Prop :=
  ∃ before, line = before ++ (word ++ after) ∧
    span = ⟨before.length, before.length + word.length⟩

namespace Holds

variable {span : Span} {line word after : List Char}

theorem start_lt_stop (h : span.Holds line word after) (hword : word ≠ []) :
    span.start < span.stop := by
  obtain ⟨before, rfl, rfl⟩ := h
  have := List.length_pos_iff.mpr hword
  simp only
  omega

theorem stop_le_length (h : span.Holds line word after) : span.stop ≤ line.length := by
  obtain ⟨before, rfl, rfl⟩ := h
  simp only [List.length_append]
  omega

theorem cut_eq (h : span.Holds line word after) : span.cut line = word := by
  obtain ⟨before, rfl, rfl⟩ := h
  simp [cut]

theorem drop_eq (h : span.Holds line word after) : line.drop span.stop = after := by
  obtain ⟨before, rfl, rfl⟩ := h
  rw [← List.append_assoc, ← List.length_append, List.drop_left]

end Holds

end Span

namespace Token

/-! ## Tokens behind one another -/

/-- The tokens that a line is made of, the first one at character `start`. -/
inductive Tiles : Nat → List Char → List Token → Prop where
  | nil {start : Nat} : Tiles start [] []
  | cons {start : Nat} {word line : List Char} {t : Token} {ts : List Token}
      (hword : Reads word t.kind) (hspan : t.span = ⟨start, start + word.length⟩)
      (rest : Tiles (start + word.length) line ts) : Tiles start (word ++ line) (t :: ts)

theorem tiles_of_ofLexemes {start : Nat} {words : List (List Char)} {tokens : List Token}
    (hne : ∀ word ∈ words, word ≠ [])
    (hruns : ∀ word ∈ words, word.IsChain fun c d => sameRun c d = true)
    (h : ofLexemes start words = .ok tokens) : Tiles start words.flatten tokens := by
  induction words generalizing start tokens with
  | nil =>
    obtain rfl := Except.ok.inj h
    exact .nil
  | cons word words ih =>
    rw [List.forall_mem_cons] at hne hruns
    cases word with
    | nil => exact absurd rfl hne.1
    | cons c rest =>
      obtain ⟨k, hk, h⟩ := bind_eq_ok.mp h
      obtain ⟨others, hothers, h⟩ := bind_eq_ok.mp h
      obtain rfl := Except.ok.inj h
      exact .cons (reads_of_ofLexeme hruns.1 hk) rfl (ih hne.2 hruns.2 hothers)

theorem tiles_of_scan {line : String} {tokens : List Token} (h : scan line = .ok tokens) :
    Tiles 0 line.toList tokens := by
  have := tiles_of_ofLexemes (fun word => ne_nil_of_mem_lexemes) (fun word => run_of_mem_lexemes) h
  rwa [flatten_lexemes] at this

namespace Tiles

variable {line : List Char} {tokens : List Token} {t : Token}

/-- Each token is found at its span. -/
theorem holds (before : List Char) (h : Tiles before.length line tokens) (ht : t ∈ tokens) :
    ∃ word after, t.span.Holds (before ++ line) word after ∧ Reads word t.kind := by
  induction tokens generalizing before line with
  | nil => contradiction
  | cons s rest ih =>
    cases h with
    | @cons _ word line _ _ hword hspan hrest =>
      rcases List.mem_cons.mp ht with rfl | ht
      · exact ⟨word, line, ⟨before, rfl, hspan⟩, hword⟩
      · rw [← List.length_append] at hrest
        rw [← List.append_assoc]
        exact ih (before ++ word) hrest ht

/-- Behind the last token nothing is left of the line. -/
theorem holds_last (before : List Char) (h : Tiles before.length line tokens)
    (ht : tokens.getLast? = some t) :
    ∃ word, t.span.Holds (before ++ line) word [] ∧ Reads word t.kind := by
  induction tokens generalizing before line with
  | nil => contradiction
  | cons s rest ih =>
    cases h with
    | @cons _ word line _ _ hword hspan hrest =>
      cases rest with
      | nil =>
        obtain rfl := Option.some.inj ht
        cases hrest
        exact ⟨word, ⟨before, rfl, hspan⟩, hword⟩
      | cons s' rest =>
        rw [← List.length_append] at hrest
        rw [← List.append_assoc]
        exact ih (before ++ word) hrest (by simpa using ht)

end Tiles

/-! ## The line before and behind a token -/

theorem ofLexemes_append {start : Nat} {words : List (List Char)} {ts us : List Token}
    (hne : ∀ word ∈ words, word ≠ []) (h : ofLexemes start words = .ok (ts ++ us)) :
    ∃ before after, words = before ++ after ∧ ofLexemes start before = .ok ts ∧
      ofLexemes (start + before.flatten.length) after = .ok us := by
  induction ts generalizing start words with
  | nil => exact ⟨[], words, rfl, rfl, h⟩
  | cons t ts ih =>
    cases words with
    | nil => exact absurd (Except.ok.inj h) (List.cons_ne_nil _ _).symm
    | cons word words =>
      rw [List.forall_mem_cons] at hne
      obtain ⟨c, rest, rfl⟩ := List.exists_cons_of_ne_nil hne.1
      obtain ⟨k, hk, h⟩ := bind_eq_ok.mp h
      obtain ⟨others, hothers, h⟩ := bind_eq_ok.mp h
      obtain ⟨rfl, rfl⟩ := List.cons.inj (Except.ok.inj h)
      obtain ⟨before, after, rfl, hbefore, hafter⟩ := ih hne.2 hothers
      refine ⟨(c :: rest) :: before, after, rfl, ?_, ?_⟩
      · exact bind_eq_ok.mpr ⟨k, hk, bind_eq_ok.mpr ⟨ts, hbefore, rfl⟩⟩
      · rwa [List.flatten_cons, List.length_append, ← Nat.add_assoc]

/-- Where a token ends, the line falls apart into the lexemes up to this token and those of the
tokens behind it. -/
theorem reads_of_scan {line : List Char} {ts us : List Token} {t : Token}
    (h : scan (String.ofList line) = .ok (ts ++ t :: us)) :
    List.Forall₂ Reads (lexemes line) ((ts ++ t :: us).map kind) ∧
      List.Forall₂ Reads (lexemes (line.take t.span.stop)) ((ts ++ [t]).map kind) ∧
      List.Forall₂ Reads (lexemes (line.drop t.span.stop)) (us.map kind) := by
  rw [scan, String.toList_ofList] at h
  have hne : ∀ word ∈ lexemes line, word ≠ [] := fun word => ne_nil_of_mem_lexemes
  have hruns : ∀ word ∈ lexemes line, word.IsChain fun c d => sameRun c d = true :=
    fun word => run_of_mem_lexemes
  refine ⟨(forall₂_reads_of_ofLexemes hne hruns h).1, ?_⟩
  rw [List.append_cons] at h
  obtain ⟨before, after, hwords, hbefore, hafter⟩ := ofLexemes_append hne h
  rw [hwords, List.forall_mem_append] at hne hruns
  obtain ⟨_, ⟨front, hfront, hspan⟩, -⟩ :=
    (tiles_of_ofLexemes hne.1 hruns.1 hbefore).holds_last [] List.getLast?_concat
  have hstop : t.span.stop = before.flatten.length := by
    rw [hspan]
    rw [List.nil_append] at hfront
    simp [hfront]
  have hline : line = before.flatten ++ after.flatten := by
    rw [← flatten_lexemes line, hwords, List.flatten_append]
  obtain ⟨hlexemes, hlexemes'⟩ := lexemes_flatten_of_append hwords
  rw [hstop, hline, List.take_left, List.drop_left, hlexemes, hlexemes']
  exact ⟨(forall₂_reads_of_ofLexemes hne.1 hruns.1 hbefore).1,
    (forall₂_reads_of_ofLexemes hne.2 hruns.2 hafter).1⟩

/-! ## Folding keeps the places -/

/-- Folding leaves no signs, and what it leaves keeps its kind and its place. -/
theorem exists_mem_of_foldSignsAfter {before : Option Token} {tokens folded : List Token}
    (h : foldSignsAfter before tokens = .ok folded) {t : Token} (ht : t ∈ folded) :
    t.kind.isSign = false ∧ ∃ s ∈ tokens, s.kind = t.kind ∧ s.span = t.span := by
  induction tokens generalizing before folded with
  | nil =>
    have hnil : folded = [] := by
      unfold foldSignsAfter at h
      split at h
      · split at h
        · contradiction
        · exact (Except.ok.inj h).symm
      · exact (Except.ok.inj h).symm
    rw [hnil] at ht
    contradiction
  | cons s rest ih =>
    rw [foldSignsAfter] at h
    obtain ⟨others, hothers, h⟩ := bind_eq_ok.mp h
    obtain rfl := Except.ok.inj h
    have hbehind (ht : t ∈ others) :
        t.kind.isSign = false ∧ ∃ s' ∈ s :: rest, s'.kind = t.kind ∧ s'.span = t.span := by
      obtain ⟨hsign, s', hs', hkept⟩ := ih hothers ht
      exact ⟨hsign, s', List.mem_cons_of_mem s hs', hkept⟩
    split at ht
    · exact hbehind ht
    · rename_i hsign
      rcases List.mem_cons.mp ht with rfl | ht
      · refine ⟨?_, s, List.mem_cons_self, (kind_signedBy before s).symm,
          (span_signedBy before s).symm⟩
        rw [kind_signedBy]
        exact Bool.eq_false_iff.mpr hsign
      · exact hbehind ht

/-! ## What is wrong with a lexeme -/

/-- Whether an error says what is wrong with a lexeme. -/
inductive Spoils : List Char → LexError → Prop where
  | character {c : Char} {span : Span} (h : IsSymbol c) (hc : Kind.ofSymbol? c = none) :
      Spoils [c] (.invalidCharacter c span)
  | number {c : Char} {rest : List Char} {span : Span} (h : Decimal.isNumeralChar c = true)
      (hrest : ∀ d ∈ rest, Decimal.isNumeralChar d = true)
      (hnone : Decimal.readNumeral? (c :: rest) = none) :
      Spoils (c :: rest) (.malformedNumber (String.ofList (c :: rest)) span)

theorem spoils_of_ofLexeme {span : Span} {c : Char} {rest : List Char} {cause : LexError}
    (hrun : (c :: rest).IsChain fun x y => sameRun x y = true)
    (h : Kind.ofLexeme span c rest = .error cause) :
    Spoils (c :: rest) cause ∧ cause.span = span := by
  simp only [Kind.ofLexeme] at h
  split at h
  · contradiction
  · rename_i hupper
    split at h
    · contradiction
    · rename_i hlower
      split at h
      · rename_i hnumeral
        split at h
        · contradiction
        · rename_i hnone
          obtain rfl := Except.error.inj h
          exact ⟨.number hnumeral (isNumeralChar_of_run hrun hnumeral) hnone, rfl⟩
      · rename_i hnumeral
        split at h
        · contradiction
        · rename_i hnone
          obtain rfl := Except.error.inj h
          have hsymbol : IsSymbol c :=
            ⟨isAlpha_eq_false.mpr ⟨Bool.eq_false_iff.mpr hupper, Bool.eq_false_iff.mpr hlower⟩,
              Bool.eq_false_iff.mpr hnumeral⟩
          obtain rfl := eq_nil_of_run hrun hsymbol
          exact ⟨.character hsymbol hnone, rfl⟩

/-- Where lexemes have no tokens, those before the first one that is wrong have. -/
theorem exists_of_ofLexemes_error {start : Nat} {words : List (List Char)} {cause : LexError}
    (hne : ∀ word ∈ words, word ≠ []) (h : ofLexemes start words = .error cause) :
    ∃ read c rest others tokens, words = read ++ (c :: rest) :: others ∧
      ofLexemes start read = .ok tokens ∧
      Kind.ofLexeme ⟨start + read.flatten.length, start + read.flatten.length + (c :: rest).length⟩
        c rest = .error cause := by
  induction words generalizing start with
  | nil => contradiction
  | cons word words ih =>
    rw [List.forall_mem_cons] at hne
    obtain ⟨c, rest, rfl⟩ := List.exists_cons_of_ne_nil hne.1
    rw [ofLexemes] at h
    obtain h | ⟨k, hk, h⟩ := bind_eq_error.mp h
    · exact ⟨[], c, rest, words, [], rfl, rfl, h⟩
    · obtain h | ⟨others, -, h⟩ := bind_eq_error.mp h
      case inr => contradiction
      obtain ⟨read, c', rest', others, tokens, rfl, hread, hwrong⟩ := ih hne.2 h
      refine ⟨(c :: rest) :: read, c', rest', others, _, rfl,
        bind_eq_ok.mpr ⟨k, hk, bind_eq_ok.mpr ⟨tokens, hread, rfl⟩⟩, ?_⟩
      rwa [List.flatten_cons, List.length_append, ← Nat.add_assoc]

theorem holds_of_ofLexemes_error (before : List Char) {words : List (List Char)}
    {cause : LexError} (hne : ∀ word ∈ words, word ≠ [])
    (hruns : ∀ word ∈ words, word.IsChain fun c d => sameRun c d = true)
    (h : ofLexemes before.length words = .error cause) :
    ∃ word after, cause.span.Holds (before ++ words.flatten) word after ∧ Spoils word cause := by
  obtain ⟨read, c, rest, others, tokens, rfl, -, hwrong⟩ := exists_of_ofLexemes_error hne h
  have hrun := hruns (c :: rest) (List.mem_append_right _ List.mem_cons_self)
  obtain ⟨hspoils, hspan⟩ := spoils_of_ofLexeme hrun hwrong
  refine ⟨c :: rest, others.flatten, ⟨before ++ read.flatten, ?_, ?_⟩, hspoils⟩
  · rw [List.flatten_append, List.flatten_cons, List.append_assoc]
  · rw [hspan, List.length_append]

end Token

open Token (Reads Spoils)

/-! ## Places in a line -/

/-- Each token of a line is found in the line at its span, and none is a sign. -/
theorem holds_of_tokenize {line : String} {tokens : List Token} (h : tokenize line = .ok tokens)
    {t : Token} (ht : t ∈ tokens) :
    t.kind.isSign = false ∧
      ∃ word after, t.span.Holds line.toList word after ∧ Reads word t.kind := by
  obtain ⟨scanned, hscan, hfold⟩ := bind_eq_ok.mp h
  obtain ⟨hsign, s, hs, hkind, hspan⟩ := Token.exists_mem_of_foldSignsAfter hfold ht
  refine ⟨hsign, ?_⟩
  rw [← hkind, ← hspan]
  exact (Token.tiles_of_scan hscan).holds [] hs

/-- Why a line has no tokens: a lexeme in it is wrong, or it ends in a sign. -/
theorem holds_of_tokenize_error {line : String} {cause : LexError}
    (h : tokenize line = .error cause) :
    (∃ word after, cause.span.Holds line.toList word after ∧ Spoils word cause) ∨
      ∃ word k, cause = .danglingSign cause.span ∧ k.isSign = true ∧
        cause.span.Holds line.toList word [] ∧ Reads word k := by
  obtain h | ⟨scanned, hscan, h⟩ := bind_eq_error.mp h
  · left
    have := Token.holds_of_ofLexemes_error [] (fun word => ne_nil_of_mem_lexemes)
      (fun word => run_of_mem_lexemes) h
    rwa [flatten_lexemes] at this
  · right
    obtain ⟨t, ht, hsign, rfl⟩ := Token.exists_last_of_foldSignsAfter h
    rw [Option.or_none] at ht
    obtain ⟨word, hholds, hreads⟩ := (Token.tiles_of_scan hscan).holds_last [] ht
    exact ⟨word, t.kind, rfl, hsign, hholds, hreads⟩

end Reckon
