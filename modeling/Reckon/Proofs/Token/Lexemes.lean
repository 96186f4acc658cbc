import Mathlib.Data.List.Chain
import Mathlib.Data.List.Forall2
import Mathlib.Data.List.SplitBy
import Reckon.Proofs.Token.Marks
import Reckon.Token.Signs

/-!
# What lexemes are read as

A lexeme is a word, a numeral or a single symbol (`Token.Reads`), and a line has tokens exactly if
all its lexemes can be read and the last one is no sign: then their kinds decide what the tokens
are, up to their places (`exists_kinds_of_tokenize`, `exists_tokenize_of_kinds`). The lexemes of two
stretches of a line are those of the line, unless a lexeme goes on from one stretch to the other
(`lexemes_append`).
-/

namespace Reckon

/-! ## Characters -/

theorem isUpper_iff {c : Char} : c.isUpper = true ↔ 65 ≤ c.val.toNat ∧ c.val.toNat ≤ 90 := by
  change decide (c.val ≥ 65 ∧ c.val ≤ 90) = true ↔ _
  simp [UInt32.le_iff_toNat_le]

theorem isLower_iff {c : Char} : c.isLower = true ↔ 97 ≤ c.val.toNat ∧ c.val.toNat ≤ 122 := by
  change (decide (c.val ≥ 97) && decide (c.val ≤ 122)) = true ↔ _
  simp [UInt32.le_iff_toNat_le]

theorem isDigit_iff {c : Char} : c.isDigit = true ↔ 48 ≤ c.val.toNat ∧ c.val.toNat ≤ 57 := by
  change (decide (c.val ≥ 48) && decide (c.val ≤ 57)) = true ↔ _
  simp [UInt32.le_iff_toNat_le]

theorem isAlpha_iff {c : Char} : c.isAlpha = true ↔ c.isUpper = true ∨ c.isLower = true :=
  Bool.or_eq_true_iff

theorem isAlpha_eq_false {c : Char} :
    c.isAlpha = false ↔ c.isUpper = false ∧ c.isLower = false := Bool.or_eq_false_iff

theorem not_isNumeralChar_of_isAlpha {c : Char} (h : c.isAlpha = true) :
    Decimal.isNumeralChar c = false := by
  rw [Bool.eq_false_iff]
  intro hnum
  have hnum' : c.isDigit = true ∨ c = '.' := by simpa [Decimal.isNumeralChar] using hnum
  rcases hnum' with hdigit | rfl
  · rw [isAlpha_iff, isUpper_iff, isLower_iff] at h
    rw [isDigit_iff] at hdigit
    omega
  · revert h
    decide

theorem not_isAlpha_of_isNumeralChar {c : Char} (h : Decimal.isNumeralChar c = true) :
    c.isAlpha = false := by
  rw [Bool.eq_false_iff]
  intro halpha
  rw [not_isNumeralChar_of_isAlpha halpha] at h
  contradiction

theorem not_isUpper_of_isLower {c : Char} (h : c.isLower = true) : c.isUpper = false := by
  rw [Bool.eq_false_iff]
  intro hupper
  rw [isLower_iff] at h
  rw [isUpper_iff] at hupper
  omega

/-- Whether a character is a lexeme by itself, whatever stands beside it. -/
def IsSymbol (c : Char) : Prop := c.isAlpha = false ∧ Decimal.isNumeralChar c = false

instance (c : Char) : Decidable (IsSymbol c) := inferInstanceAs (Decidable (_ ∧ _))

theorem sameRun_of_isSymbol_left {c : Char} (h : IsSymbol c) (d : Char) : sameRun c d = false := by
  simp [sameRun, h.1, h.2]

theorem sameRun_of_isSymbol_right {d : Char} (h : IsSymbol d) (c : Char) : sameRun c d = false := by
  simp [sameRun, h.1, h.2]

/-! ## Lexemes of stretches -/

theorem lexemes_append {before after : List Char}
    (h : ∀ c ∈ before.getLast?, ∀ d ∈ after.head?, sameRun c d = false) :
    lexemes (before ++ after) = lexemes before ++ lexemes after := List.splitBy_append h

theorem lexemes_append_symbol (before after : List Char) {d : Char} (hd : IsSymbol d) :
    lexemes (before ++ d :: after) = lexemes before ++ [d] :: lexemes after := by
  have hrest : lexemes ([d] ++ after) = lexemes [d] ++ lexemes after := by
    refine lexemes_append fun c hc e _ => ?_
    obtain rfl := Option.some.inj hc
    exact sameRun_of_isSymbol_left hd e
  have hall : lexemes (before ++ ([d] ++ after)) = lexemes before ++ lexemes ([d] ++ after) := by
    refine lexemes_append fun c _ e he => ?_
    obtain rfl := Option.some.inj he
    exact sameRun_of_isSymbol_right hd c
  rw [hrest] at hall
  exact hall

/-- Some of the first lexemes of a line are the lexemes of a stretch, and so are the others. -/
theorem lexemes_flatten_of_append {line : List Char} {before after : List (List Char)}
    (h : lexemes line = before ++ after) :
    lexemes before.flatten = before ∧ lexemes after.flatten = after := by
  obtain ⟨-, hne, hruns, hchain⟩ := List.splitBy_eq_iff.mp h
  rw [List.mem_append, not_or] at hne
  rw [List.forall_mem_append] at hruns
  exact ⟨List.splitBy_eq_iff.mpr ⟨rfl, hne.1, hruns.1, hchain.left_of_append⟩,
    List.splitBy_eq_iff.mpr ⟨rfl, hne.2, hruns.2, hchain.right_of_append⟩⟩

theorem ne_nil_of_mem_lexemes {line word : List Char} (h : word ∈ lexemes line) : word ≠ [] :=
  List.ne_nil_of_mem_splitBy h

theorem run_of_mem_lexemes {line word : List Char} (h : word ∈ lexemes line) :
    word.IsChain fun c d => sameRun c d = true := List.isChain_of_mem_splitBy h

theorem flatten_lexemes (line : List Char) : (lexemes line).flatten = line :=
  List.flatten_splitBy sameRun line

namespace Token

/-! ## Reading a lexeme -/

/-- Whether characters are a lexeme of a given kind. -/
inductive Reads : List Char → Kind → Prop where
  | function {c : Char} {rest : List Char} (h : c.isUpper = true)
      (hrest : ∀ d ∈ rest, d.isAlpha = true) :
      Reads (c :: rest) (.function (String.ofList (c :: rest)))
  | var {c : Char} {rest : List Char} (h : c.isLower = true)
      (hrest : ∀ d ∈ rest, d.isAlpha = true) : Reads (c :: rest) (.var (String.ofList (c :: rest)))
  | number {c : Char} {rest : List Char} {x : Float} (h : Decimal.isNumeralChar c = true)
      (hrest : ∀ d ∈ rest, Decimal.isNumeralChar d = true)
      (hx : Decimal.readNumeral? (c :: rest) = some x) : Reads (c :: rest) (.number x)
  | symbol {c : Char} {k : Kind} (h : Kind.ofSymbol? c = some k) : Reads [c] k

theorem isSymbol_of_ofSymbol? {c : Char} {k : Kind} (h : Kind.ofSymbol? c = some k) :
    IsSymbol c := by
  unfold Kind.ofSymbol? at h
  split at h <;> first | contradiction | decide

/-- A run that starts with a letter consists of letters. -/
theorem isAlpha_of_run {c : Char} {rest : List Char}
    (h : (c :: rest).IsChain fun x y => sameRun x y = true) (hc : c.isAlpha = true) :
    ∀ x ∈ rest, x.isAlpha = true := by
  refine h.cons_induction (fun x => x.isAlpha = true) rest (fun x y hxy hx => ?_) hc
  simpa [sameRun, hx, not_isNumeralChar_of_isAlpha hx] using hxy

/-- A run that starts with a digit or a point consists of digits and points. -/
theorem isNumeralChar_of_run {c : Char} {rest : List Char}
    (h : (c :: rest).IsChain fun x y => sameRun x y = true)
    (hc : Decimal.isNumeralChar c = true) : ∀ x ∈ rest, Decimal.isNumeralChar x = true := by
  refine h.cons_induction (fun x => Decimal.isNumeralChar x = true) rest
    (fun x y hxy hx => ?_) hc
  simpa [sameRun, hx, not_isAlpha_of_isNumeralChar hx] using hxy

/-- A run that starts with any other character ends with it. -/
theorem eq_nil_of_run {c : Char} {rest : List Char}
    (h : (c :: rest).IsChain fun x y => sameRun x y = true) (hc : IsSymbol c) : rest = [] := by
  cases rest with
  | nil => rfl
  | cons d rest =>
    have hcd := (List.isChain_cons_cons.mp h).1
    rw [sameRun_of_isSymbol_left hc] at hcd
    contradiction

theorem reads_of_ofLexeme {span : Span} {c : Char} {rest : List Char} {k : Kind}
    (hrun : (c :: rest).IsChain fun x y => sameRun x y = true)
    (h : Kind.ofLexeme span c rest = .ok k) : Reads (c :: rest) k := by
  simp only [Kind.ofLexeme] at h
  split at h
  · rename_i hupper
    obtain rfl := Except.ok.inj h
    exact .function hupper (isAlpha_of_run hrun (isAlpha_iff.mpr (.inl hupper)))
  · rename_i hupper
    split at h
    · rename_i hlower
      obtain rfl := Except.ok.inj h
      exact .var hlower (isAlpha_of_run hrun (isAlpha_iff.mpr (.inr hlower)))
    · rename_i hlower
      split at h
      · rename_i hnumeral
        split at h
        · rename_i x hx
          obtain rfl := Except.ok.inj h
          exact .number hnumeral (isNumeralChar_of_run hrun hnumeral) hx
        · contradiction
      · split at h
        · rename_i k' hk
          obtain rfl := Except.ok.inj h
          obtain rfl := eq_nil_of_run hrun (isSymbol_of_ofSymbol? hk)
          exact .symbol hk
        · contradiction

theorem ofLexeme_of_reads {c : Char} {rest : List Char} {k : Kind} (h : Reads (c :: rest) k)
    (span : Span) : Kind.ofLexeme span c rest = .ok k := by
  cases h with
  | function hupper _ => simp [Kind.ofLexeme, hupper]
  | var hlower _ => simp [Kind.ofLexeme, hlower, not_isUpper_of_isLower hlower]
  | number hnumeral _ hx =>
    have hcase := isAlpha_eq_false.mp (not_isAlpha_of_isNumeralChar hnumeral)
    simp [Kind.ofLexeme, hcase, hnumeral, hx]
  | symbol hk =>
    obtain ⟨halpha, hnumeral⟩ := isSymbol_of_ofSymbol? hk
    simp [Kind.ofLexeme, isAlpha_eq_false.mp halpha, hnumeral, hk]

theorem ofSymbol?_of_reads {c : Char} {rest : List Char} {k : Kind} (h : Reads (c :: rest) k)
    (hc : IsSymbol c) : Kind.ofSymbol? c = some k := by
  cases h with
  | function hupper _ => exact absurd hupper (by simp [isAlpha_eq_false.mp hc.1])
  | var hlower _ => exact absurd hlower (by simp [isAlpha_eq_false.mp hc.1])
  | number hnumeral _ _ => exact absurd hnumeral (by simp [hc.2])
  | symbol hk => exact hk

theorem Reads.ne_nil {word : List Char} {k : Kind} (h : Reads word k) : word ≠ [] := by
  cases h <;> exact List.cons_ne_nil _ _

/-- A lexeme is a value that consists of letters or of digits and points, or it is a symbol. -/
theorem Reads.letters_or_numeral_or_symbol {word : List Char} {k : Kind} (h : Reads word k) :
    (k.isValue = true ∧
        ((∀ c ∈ word, c.isAlpha = true) ∨ ∀ c ∈ word, Decimal.isNumeralChar c = true)) ∨
      ∃ c, word = [c] ∧ Kind.ofSymbol? c = some k := by
  cases h with
  | function hupper hrest =>
    exact .inl ⟨rfl, .inl (List.forall_mem_cons.mpr ⟨isAlpha_iff.mpr (.inl hupper), hrest⟩)⟩
  | var hlower hrest =>
    exact .inl ⟨rfl, .inl (List.forall_mem_cons.mpr ⟨isAlpha_iff.mpr (.inr hlower), hrest⟩)⟩
  | number hnumeral hrest _ =>
    exact .inl ⟨rfl, .inr (List.forall_mem_cons.mpr ⟨hnumeral, hrest⟩)⟩
  | symbol hk => exact .inr ⟨_, rfl, hk⟩

/-- A lexeme is of one kind only. -/
theorem rightUnique_reads : Relator.RightUnique Reads := by
  intro word k k' h h'
  obtain ⟨c, rest, rfl⟩ := List.exists_cons_of_ne_nil h.ne_nil
  exact Except.ok.inj ((ofLexeme_of_reads h ⟨0, 0⟩).symm.trans (ofLexeme_of_reads h' ⟨0, 0⟩))

/-! ## Reading all lexemes -/

/-- What stands in one of two rows of related things is related to something in the other. -/
theorem exists_rel_of_mem {α β : Type} {R : α → β → Prop} {as : List α} {bs : List β}
    (h : List.Forall₂ R as bs) {a : α} (ha : a ∈ as) : ∃ b ∈ bs, R a b := by
  induction h with
  | nil => contradiction
  | cons hfirst _ ih =>
    rcases List.mem_cons.mp ha with rfl | ha
    · exact ⟨_, List.mem_cons_self, hfirst⟩
    · obtain ⟨b, hb, hrel⟩ := ih ha
      exact ⟨b, List.mem_cons_of_mem _ hb, hrel⟩

theorem forall₂_reads_of_ofLexemes {start : Nat} {words : List (List Char)} {tokens : List Token}
    (hne : ∀ word ∈ words, word ≠ [])
    (hruns : ∀ word ∈ words, word.IsChain fun x y => sameRun x y = true)
    (h : ofLexemes start words = .ok tokens) :
    List.Forall₂ Reads words (tokens.map kind) ∧ ∀ t ∈ tokens, t.IsPlain := by
  induction words generalizing start tokens with
  | nil =>
    obtain rfl := Except.ok.inj h
    exact ⟨.nil, List.forall_mem_nil _⟩
  | cons word words ih =>
    rw [List.forall_mem_cons] at hne hruns
    cases word with
    | nil => exact absurd rfl hne.1
    | cons c rest =>
      obtain ⟨k, hk, h⟩ := bind_eq_ok.mp h
      obtain ⟨others, hothers, h⟩ := bind_eq_ok.mp h
      obtain rfl := Except.ok.inj h
      obtain ⟨hreads, hplain⟩ := ih hne.2 hruns.2 hothers
      exact ⟨.cons (reads_of_ofLexeme hruns.1 hk) hreads,
        List.forall_mem_cons.mpr ⟨⟨rfl, rfl⟩, hplain⟩⟩

theorem exists_ofLexemes_of_reads {words : List (List Char)} {kinds : List Kind}
    (h : List.Forall₂ Reads words kinds) (start : Nat) :
    ∃ tokens, ofLexemes start words = .ok tokens ∧ tokens.map kind = kinds ∧
      ∀ t ∈ tokens, t.IsPlain := by
  induction h generalizing start with
  | nil => exact ⟨[], rfl, rfl, List.forall_mem_nil _⟩
  | @cons word k words kinds hword _ ih =>
    obtain ⟨c, rest, rfl⟩ := List.exists_cons_of_ne_nil hword.ne_nil
    obtain ⟨tokens, htokens, rfl, hplain⟩ := ih (start + (c :: rest).length)
    refine ⟨plain k ⟨start, start + (c :: rest).length⟩ :: tokens, ?_, rfl, ?_⟩
    · rw [ofLexemes, ofLexeme_of_reads hword]
      simp only [bind, Except.bind, htokens, pure, Except.pure]
    · exact List.forall_mem_cons.mpr ⟨⟨rfl, rfl⟩, hplain⟩

theorem forall₂_reads_append {words words' : List (List Char)} {kinds : List Kind}
    (h : List.Forall₂ Reads (words ++ words') kinds) :
    ∃ ks js, kinds = ks ++ js ∧ List.Forall₂ Reads words ks ∧ List.Forall₂ Reads words' js := by
  have hflip : List.Forall₂ (flip Reads) kinds (words ++ words') := h.flip
  exact ⟨_, _, (List.take_append_drop words.length kinds).symm,
    (List.forall₂_take_append kinds words words' hflip).flip,
    (List.forall₂_drop_append kinds words words' hflip).flip⟩

/-- A symbol is read by itself, between what comes before it and after it. -/
theorem forall₂_reads_symbol_iff {before after : List Char} {c : Char} {k : Kind}
    (hk : Kind.ofSymbol? c = some k) {kinds : List Kind} :
    List.Forall₂ Reads (lexemes (before ++ c :: after)) kinds ↔
      ∃ ks js, kinds = ks ++ k :: js ∧ List.Forall₂ Reads (lexemes before) ks ∧
        List.Forall₂ Reads (lexemes after) js := by
  have hc := isSymbol_of_ofSymbol? hk
  rw [lexemes_append_symbol before after hc]
  constructor
  · intro h
    obtain ⟨ks, js, rfl, hks, hjs⟩ := forall₂_reads_append h
    obtain ⟨k', js, hk', hrest, rfl⟩ := List.forall₂_cons_left_iff.mp hjs
    obtain rfl := Option.some.inj (hk.symm.trans (ofSymbol?_of_reads hk' hc))
    exact ⟨ks, js, rfl, hks, hrest⟩
  · rintro ⟨ks, js, rfl, hks, hjs⟩
    exact List.rel_append hks (.cons (.symbol hk) hjs)

/-! ## Folding signs fails for the last token only -/

theorem last_of_foldSignsAfter {before : Option Token} {tokens folded : List Token}
    (h : foldSignsAfter before tokens = .ok folded) :
    ∀ t ∈ tokens.getLast?.or before, t.kind.isSign = false := by
  induction tokens generalizing before folded with
  | nil =>
    rintro t ht
    obtain rfl : before = some t := ht
    rw [foldSignsAfter] at h
    split at h
    · contradiction
    · rename_i hsign
      exact Bool.eq_false_iff.mpr hsign
  | cons s rest ih =>
    rw [foldSignsAfter] at h
    obtain ⟨others, hothers, -⟩ := bind_eq_ok.mp h
    intro t ht
    refine ih hothers t ?_
    rw [List.getLast?_cons] at ht
    cases hlast : rest.getLast? <;> simpa [hlast] using ht

theorem exists_last_of_foldSignsAfter {before : Option Token} {tokens : List Token}
    {cause : LexError} (h : foldSignsAfter before tokens = .error cause) :
    ∃ t, tokens.getLast?.or before = some t ∧ t.kind.isSign = true ∧
      cause = .danglingSign t.span := by
  induction tokens generalizing before with
  | nil =>
    cases before with
    | none => contradiction
    | some t =>
      rw [foldSignsAfter] at h
      split at h
      · rename_i hsign
        exact ⟨t, rfl, hsign, (Except.error.inj h).symm⟩
      · contradiction
  | cons s rest ih =>
    rw [foldSignsAfter] at h
    obtain hrest | ⟨others, -, h⟩ := bind_eq_error.mp h
    case inr => contradiction
    obtain ⟨t, ht, hsign, hcause⟩ := ih hrest
    refine ⟨t, ?_, hsign, hcause⟩
    rw [List.getLast?_cons]
    cases hlast : rest.getLast? <;> simpa [hlast] using ht

end Token

open Token (Kind Reads Marked)

/-! ## The tokens of a line, up to their places -/

/-- The lexemes of a line that has tokens can be read, and the last one is no sign. -/
theorem exists_kinds_of_tokenize {line : String} {tokens : List Token}
    (h : tokenize line = .ok tokens) :
    ∃ kinds, List.Forall₂ Reads (lexemes line.toList) kinds ∧
      (∀ k ∈ kinds.getLast?, k.isSign = false) ∧ Marked none kinds tokens := by
  obtain ⟨scanned, hscan, hfold⟩ := bind_eq_ok.mp h
  obtain ⟨hreads, hplain⟩ := Token.forall₂_reads_of_ofLexemes
    (fun word => ne_nil_of_mem_lexemes) (fun word => run_of_mem_lexemes) hscan
  have hlast : ∀ k ∈ (scanned.map Token.kind).getLast?, k.isSign = false := by
    intro k hk
    rw [List.getLast?_map] at hk
    obtain ⟨t, ht, rfl⟩ := Option.map_eq_some_iff.mp hk
    exact Token.last_of_foldSignsAfter hfold t (by rw [ht]; rfl)
  obtain ⟨folded, hfolded, hmarked⟩ :=
    Token.exists_foldSignsAfter none hplain (by simpa using hlast)
  obtain rfl := Except.ok.inj (hfold.symm.trans hfolded)
  exact ⟨_, hreads, hlast, hmarked⟩

/-- Each token of a line is read from one of its lexemes. -/
theorem exists_reads_of_tokenize {line : String} {tokens : List Token}
    (h : tokenize line = .ok tokens) :
    ∀ t ∈ tokens, ∃ word ∈ lexemes line.toList, Reads word t.kind := by
  obtain ⟨kinds, hreads, -, hmarked⟩ := exists_kinds_of_tokenize h
  intro t ht
  exact Token.exists_rel_of_mem (R := flip Reads) hreads.flip (hmarked.kind_mem ht)

/-- If the lexemes of a line can be read and the last one is no sign, the line has tokens. -/
theorem exists_tokenize_of_kinds {line : List Char} {kinds : List Kind}
    (h : List.Forall₂ Reads (lexemes line) kinds) (hlast : ∀ k ∈ kinds.getLast?, k.isSign = false) :
    ∃ tokens, tokenize (String.ofList line) = .ok tokens ∧ Marked none kinds tokens := by
  obtain ⟨scanned, hscan, rfl, hplain⟩ := Token.exists_ofLexemes_of_reads h 0
  obtain ⟨folded, hfolded, hmarked⟩ :=
    Token.exists_foldSignsAfter none hplain (by simpa using hlast)
  refine ⟨folded, bind_eq_ok.mpr ⟨scanned, ?_, hfolded⟩, hmarked⟩
  rw [Token.scan, String.toList_ofList]
  exact hscan

end Reckon
