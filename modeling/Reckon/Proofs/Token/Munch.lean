import Reckon.Calculate
import Reckon.Proofs.Token.Places
import Reckon.Proofs.Token.Reader

/-!
# The line as a tiling

A token of a line is a run of letters, a run of digits and points, or one other character, and a
run goes on as far as it can. So a line has tokens exactly if each character may stand in a line and
each run of digits and points is a numeral, and then the tokens tile it. Where not, the error is the
first thing that is wrong, and what stands before that has tokens (`scan_tiling`).
-/

namespace Reckon

/-- Whether a character may stand in a line. -/
def Allowed (c : Char) : Prop :=
  c.isAlpha = true ∨ c.isDigit = true ∨
    c ∈ ['.', '+', '-', '*', '/', '^', '(', '{', '[', ')', '}', ']']

/-- Whether a run of digits and points has a digit and not more than one point. -/
def IsNumeral (run : List Char) : Prop := (∃ c ∈ run, c.isDigit = true) ∧ run.count '.' ≤ 1

/-- Whether spans lie one behind the other from `start` to `stop`, and none is empty. -/
def Span.Contiguous (start : Nat) (spans : List Span) (stop : Nat) : Prop :=
  match spans with
  | [] => start = stop
  | span :: rest => span.start = start ∧ start < span.stop ∧ Contiguous span.stop rest stop

namespace Token

/-- A word as a token: a function if its first letter is in upper case. -/
def Kind.ofWord (word : List Char) : Kind :=
  if word.head?.any Char.isUpper then .function (String.ofList word)
  else .var (String.ofList word)

/-- Whether `word` is the longest piece of a line behind `before` that is a token of some kind. -/
inductive Munch (line before : List Char) : List Char → Kind → Prop where
  | letters {word after : List Char} (h : IsRun Char.isAlpha line before word after) :
      Munch line before word (.ofWord word)
  | numeral {word after : List Char} {x : Float}
      (h : IsRun Decimal.isNumeralChar line before word after)
      (hx : Decimal.readNumeral? word = some x) : Munch line before word (.number x)
  | symbol {c : Char} {after : List Char} {k : Kind} (h : line = before ++ c :: after)
      (hk : Kind.ofSymbol? c = some k) : Munch line before [c] k

/-- Whether tokens are the pieces of a line behind `before`, in order and each at its place. -/
inductive Tiling (line : List Char) : List Char → List Token → Prop where
  | nil : Tiling line line []
  | cons {before word : List Char} {k : Kind} {ts : List Token} (h : Munch line before word k)
      (rest : Tiling line (before ++ word) ts) :
      Tiling line before (.plain k ⟨before.length, before.length + word.length⟩ :: ts)

/-- Whether an error is put down to what stands in a line behind `before`: a character that may not
stand there, or a whole run of digits and points that is no numeral. -/
inductive Offence (line before : List Char) : LexError → Prop where
  | character {c : Char} {after : List Char} (h : line = before ++ c :: after)
      (hc : ¬Allowed c) :
      Offence line before (.invalidCharacter c ⟨before.length, before.length + 1⟩)
  | number {run after : List Char} (h : IsRun Decimal.isNumeralChar line before run after)
      (hrun : ¬IsNumeral run) :
      Offence line before
        (.malformedNumber (String.ofList run) ⟨before.length, before.length + run.length⟩)

/-! ## Numerals -/

theorem isDigit_of_isNumeralChar {c : Char} (h : Decimal.isNumeralChar c = true) (hc : c ≠ '.') :
    c.isDigit = true := by
  simpa [Decimal.isNumeralChar, hc] using h

/-- Digits and points without a further point have a digit unless there are none. -/
theorem exists_isDigit_iff {cs : List Char} (h : ∀ c ∈ cs, Decimal.isNumeralChar c = true)
    (hpoint : '.' ∉ cs) : (∃ c ∈ cs, c.isDigit = true) ↔ cs ≠ [] := by
  constructor
  · rintro ⟨c, hc, -⟩
    exact List.ne_nil_of_mem hc
  · intro hne
    obtain ⟨c, hc⟩ := List.exists_mem_of_ne_nil cs hne
    exact ⟨c, hc, isDigit_of_isNumeralChar (h c hc) fun heq => hpoint (heq ▸ hc)⟩

/-- A run of digits and points is read exactly if it is a numeral. -/
theorem exists_readNumeral?_iff {run : List Char}
    (h : ∀ c ∈ run, Decimal.isNumeralChar c = true) :
    (∃ x, Decimal.readNumeral? run = some x) ↔ IsNumeral run := by
  have hparts : run.takeWhile (· != '.') ++ run.dropWhile (· != '.') = run :=
    List.takeWhile_append_dropWhile
  have hwhole : '.' ∉ run.takeWhile (· != '.') := by
    intro hmem
    have := List.all_eq_true.mp List.all_takeWhile '.' hmem
    simp at this
  have hread : (∃ x, Decimal.readNumeral? run = some x) ↔
      '.' ∉ (run.dropWhile (· != '.')).drop 1 ∧
        run.takeWhile (· != '.') ++ (run.dropWhile (· != '.')).drop 1 ≠ [] := by
    simp [Decimal.readNumeral?, Decimal.ofNumeral?]
  rw [hread, IsNumeral]
  generalize run.takeWhile (· != '.') = whole at hparts hwhole ⊢
  cases hrest : run.dropWhile (· != '.') with
  | nil =>
    -- no point at all
    rw [hrest, List.append_nil] at hparts
    subst hparts
    rw [exists_isDigit_iff h hwhole]
    simp [List.count_eq_zero.mpr hwhole]
  | cons point fraction =>
    rw [hrest] at hparts
    obtain rfl : point = '.' := by
      have := List.head?_dropWhile_not (· != '.') run
      rw [hrest] at this
      simpa using this
    subst hparts
    have hcount : (whole ++ '.' :: fraction).count '.' = fraction.count '.' + 1 := by
      rw [List.count_append, List.count_eq_zero.mpr hwhole, List.count_cons_self, Nat.zero_add]
    have hpoints : fraction.count '.' + 1 ≤ 1 ↔ '.' ∉ fraction := by
      rw [← List.count_eq_zero]
      omega
    have hdigit : (∃ c ∈ whole ++ '.' :: fraction, c.isDigit = true) ↔
        ∃ c ∈ whole ++ fraction, c.isDigit = true := by
      simp [List.mem_append, or_and_right, exists_or]
    have hchars : ∀ c ∈ whole ++ fraction, Decimal.isNumeralChar c = true := by
      intro c hc
      refine h c ?_
      rw [List.mem_append, List.mem_cons]
      exact (List.mem_append.mp hc).imp_right .inr
    rw [hcount, List.drop_one, List.tail_cons, hpoints, hdigit, and_comm]
    refine and_congr_left fun hfraction => (exists_isDigit_iff hchars ?_).symm
    rw [List.mem_append, not_or]
    exact ⟨hwhole, hfraction⟩

/-! ## Tokens of lexemes -/

section Lexemes

variable {line word : List Char} {words others : List (List Char)} {k : Kind}

/-- A lexeme that is read is the longest piece of its kind at its place. -/
theorem munch_of_reads (h : lexemes line = words ++ word :: others) (hword : Reads word k) :
    Munch line words.flatten word k := by
  cases hword with
  | @function c rest hupper hrest =>
    have hall : ∀ d ∈ c :: rest, d.isAlpha = true :=
      List.forall_mem_cons.mpr ⟨isAlpha_iff.mpr (.inl hupper), hrest⟩
    have hkind : Kind.ofWord (c :: rest) = .function (String.ofList (c :: rest)) := by
      simp [Kind.ofWord, hupper]
    rw [← hkind]
    exact .letters (isRun_of_lexemes isClass_isAlpha h hall)
  | @var c rest hlower hrest =>
    have hall : ∀ d ∈ c :: rest, d.isAlpha = true :=
      List.forall_mem_cons.mpr ⟨isAlpha_iff.mpr (.inr hlower), hrest⟩
    have hkind : Kind.ofWord (c :: rest) = .var (String.ofList (c :: rest)) := by
      simp [Kind.ofWord, not_isUpper_of_isLower hlower]
    rw [← hkind]
    exact .letters (isRun_of_lexemes isClass_isAlpha h hall)
  | @number c rest _ hnumeral hrest hx =>
    have hall : ∀ d ∈ c :: rest, Decimal.isNumeralChar d = true :=
      List.forall_mem_cons.mpr ⟨hnumeral, hrest⟩
    exact .numeral (isRun_of_lexemes isClass_isNumeralChar h hall) hx
  | @symbol c _ hk =>
    have hline : line = words.flatten ++ c :: others.flatten := by
      rw [← flatten_lexemes line, h, List.flatten_append, List.flatten_cons]
      rfl
    exact .symbol hline hk

theorem tiling_of_ofLexemes {tokens : List Token} (h : lexemes line = words ++ others)
    (hscan : ofLexemes words.flatten.length others = .ok tokens) :
    Tiling line words.flatten tokens := by
  induction others generalizing words tokens with
  | nil =>
    obtain rfl := Except.ok.inj hscan
    have hline : words.flatten = line := by
      rw [← flatten_lexemes line, h, List.append_nil]
    rw [hline]
    exact .nil
  | cons word others ih =>
    have hmem : word ∈ lexemes line := by
      rw [h]
      exact List.mem_append_right _ List.mem_cons_self
    have hrun := run_of_mem_lexemes hmem
    obtain ⟨c, rest, rfl⟩ := List.exists_cons_of_ne_nil (ne_nil_of_mem_lexemes hmem)
    obtain ⟨k, hk, hscan⟩ := bind_eq_ok.mp hscan
    obtain ⟨ts, hts, hscan⟩ := bind_eq_ok.mp hscan
    obtain rfl := Except.ok.inj hscan
    have hflatten : (words ++ [c :: rest]).flatten = words.flatten ++ (c :: rest) := by simp
    have hrest : Tiling line (words ++ [c :: rest]).flatten ts := by
      refine ih (by rw [h, List.append_cons]) ?_
      rw [hflatten, List.length_append]
      exact hts
    rw [hflatten] at hrest
    exact .cons (munch_of_reads h (reads_of_ofLexeme hrun hk)) hrest

end Lexemes

theorem Munch.ne_nil {line before word : List Char} {k : Kind} (h : Munch line before word k) :
    word ≠ [] := by
  cases h with
  | letters h => exact h.ne_nil
  | numeral h _ => exact h.ne_nil
  | symbol _ _ => exact List.cons_ne_nil _ _

/-- The places of a tiling lie one behind the other. -/
theorem Tiling.contiguous {line before : List Char} {tokens : List Token}
    (h : Tiling line before tokens) :
    Span.Contiguous before.length (tokens.map span) line.length := by
  induction h with
  | nil => rfl
  | @cons before word k ts hword _ ih =>
    have hlength := List.length_pos_iff.mpr hword.ne_nil
    rw [List.length_append] at ih
    exact ⟨rfl, by simp only [plain]; omega, ih⟩

/-! ## What may stand in a line -/

theorem allowed_of_isNumeralChar {c : Char} (h : Decimal.isNumeralChar c = true) : Allowed c := by
  have hc : c.isDigit = true ∨ c = '.' := by simpa [Decimal.isNumeralChar] using h
  rcases hc with hdigit | rfl
  · exact .inr (.inl hdigit)
  · exact .inr (.inr List.mem_cons_self)

theorem allowed_of_ofSymbol? {c : Char} {k : Kind} (h : Kind.ofSymbol? c = some k) :
    Allowed c := by
  unfold Kind.ofSymbol? at h
  split at h <;> first | contradiction | exact .inr (.inr (by decide))

theorem allowed_of_reads {word : List Char} {k : Kind} (h : Reads word k) :
    ∀ c ∈ word, Allowed c := by
  intro c hc
  obtain ⟨-, hletters | hnumeral⟩ | ⟨d, rfl, hd⟩ := h.letters_or_numeral_or_symbol
  · exact .inl (hletters c hc)
  · exact allowed_of_isNumeralChar (hnumeral c hc)
  · rw [List.mem_singleton.mp hc]
    exact allowed_of_ofSymbol? hd

/-- A symbol that may stand in a line is one of the operators and brackets. -/
theorem not_allowed_of_isSymbol {c : Char} (h : IsSymbol c) (hc : Kind.ofSymbol? c = none) :
    ¬Allowed c := by
  rintro (halpha | hdigit | hmem)
  · rw [h.1] at halpha
    contradiction
  · have hnumeral := h.2
    simp [Decimal.isNumeralChar, hdigit] at hnumeral
  · simp only [List.mem_cons, List.not_mem_nil, or_false] at hmem
    rcases hmem with rfl | rfl | rfl | rfl | rfl | rfl | rfl | rfl | rfl | rfl | rfl | rfl
    · exact absurd h (by decide)
    all_goals exact absurd hc (by decide)

theorem toNat_lt_of_allowed {c : Char} (h : Allowed c) : c.toNat < 128 := by
  have hval : c.toNat = c.val.toNat := rfl
  rcases h with halpha | hdigit | hmem
  · rw [isAlpha_iff, isUpper_iff, isLower_iff] at halpha
    omega
  · rw [isDigit_iff] at hdigit
    omega
  · simp only [List.mem_cons, List.not_mem_nil, or_false] at hmem
    rcases hmem with rfl | rfl | rfl | rfl | rfl | rfl | rfl | rfl | rfl | rfl | rfl | rfl <;>
      decide

/-- Each of these characters takes one byte. -/
theorem utf8ByteSize_of_allowed {cs : List Char} (h : ∀ c ∈ cs, Allowed c) :
    (String.ofList cs).utf8ByteSize = cs.length := by
  induction cs with
  | nil => rfl
  | cons c cs ih =>
    obtain ⟨hc, hcs⟩ := List.forall_mem_cons.mp h
    have hsize : c.utf8Size = 1 := by
      rw [Char.utf8Size_eq_one_iff, UInt32.le_iff_toNat_le]
      exact Nat.le_of_lt_succ (toNat_lt_of_allowed hc)
    rw [String.ofList_cons, String.utf8ByteSize_append, String.utf8ByteSize_singleton, hsize,
      ih hcs, List.length_cons]
    omega

/-- A run of digits and points that is read is a numeral. -/
theorem isNumeral_of_reads {run : List Char} {k : Kind} (h : Reads run k)
    (hrun : ∀ c ∈ run, Decimal.isNumeralChar c = true) : IsNumeral run := by
  cases h with
  | function hupper _ =>
    have halpha := not_isAlpha_of_isNumeralChar (hrun _ List.mem_cons_self)
    rw [isAlpha_eq_false, hupper] at halpha
    exact absurd halpha.1 (by decide)
  | var hlower _ =>
    have halpha := not_isAlpha_of_isNumeralChar (hrun _ List.mem_cons_self)
    rw [isAlpha_eq_false, hlower] at halpha
    exact absurd halpha.2 (by decide)
  | number _ _ hx => exact (exists_readNumeral?_iff hrun).mp ⟨_, hx⟩
  | symbol hk =>
    have hnumeral := (isSymbol_of_ofSymbol? hk).2
    rw [hrun _ List.mem_cons_self] at hnumeral
    contradiction

/-! ## The first offence -/

section Offences

variable {line : List Char} {words others : List (List Char)} {cause : LexError}

theorem offence_of_spoils {word : List Char} (h : lexemes line = words ++ word :: others)
    (hword : Spoils word cause)
    (hspan : cause.span = ⟨words.flatten.length, words.flatten.length + word.length⟩) :
    Offence line words.flatten cause := by
  cases hword with
  | @character c span hsymbol hc =>
    obtain rfl : span = _ := hspan
    have hline : line = words.flatten ++ c :: others.flatten := by
      rw [← flatten_lexemes line, h, List.flatten_append, List.flatten_cons]
      rfl
    exact .character hline (not_allowed_of_isSymbol hsymbol hc)
  | @number c rest span hnumeral hrest hnone =>
    obtain rfl : span = _ := hspan
    have hall : ∀ d ∈ c :: rest, Decimal.isNumeralChar d = true :=
      List.forall_mem_cons.mpr ⟨hnumeral, hrest⟩
    refine .number (isRun_of_lexemes isClass_isNumeralChar h hall) fun hrun => ?_
    obtain ⟨x, hx⟩ := (exists_readNumeral?_iff hall).mpr hrun
    rw [hnone] at hx
    contradiction

/-- What stands in a list at some place is in each front part of it that ends further behind. -/
theorem mem_or_exists_append {α : Type} {as bs cs ds : List α} {a : α}
    (h : as ++ a :: bs = cs ++ ds) : a ∈ cs ∨ ∃ es, as = cs ++ es := by
  rcases List.append_eq_append_iff.mp h with ⟨es, rfl, hes⟩ | ⟨es, rfl, -⟩
  · cases es with
    | nil => exact .inr ⟨[], by simp⟩
    | cons e es =>
      obtain ⟨rfl, -⟩ := List.cons.inj hes
      exact .inl (List.mem_append_right _ List.mem_cons_self)
  · exact .inr ⟨es, rfl⟩

theorem exists_reads_of_ofLexemes {start : Nat} {tokens : List Token}
    (h : lexemes line = words ++ others) (hscan : ofLexemes start words = .ok tokens) :
    ∀ word ∈ words, ∃ k, Reads word k := by
  have hmem : ∀ word ∈ words, word ∈ lexemes line := fun word hword => by
    rw [h]
    exact List.mem_append_left _ hword
  have hreads := (forall₂_reads_of_ofLexemes
    (fun word hword => ne_nil_of_mem_lexemes (hmem word hword))
    (fun word hword => run_of_mem_lexemes (hmem word hword)) hscan).1
  intro word hword
  obtain ⟨k, -, hk⟩ := exists_rel_of_mem hreads hword
  exact ⟨k, hk⟩

/-- There is no offence in front of lexemes that have tokens. -/
theorem le_length_of_offence {start : Nat} {tokens : List Token} {before : List Char}
    (h : lexemes line = words ++ others) (hscan : ofLexemes start words = .ok tokens)
    (hoffence : Offence line before cause) : words.flatten.length ≤ before.length := by
  have hread := exists_reads_of_ofLexemes h hscan
  cases hoffence with
  | @character c after hline hc =>
    have hline' : before ++ c :: after = words.flatten ++ others.flatten := by
      rw [← hline, ← List.flatten_append, ← h, flatten_lexemes]
    rcases mem_or_exists_append hline' with hmem | ⟨es, rfl⟩
    · obtain ⟨word, hword, hmem⟩ := List.mem_flatten.mp hmem
      obtain ⟨k, hk⟩ := hread word hword
      exact absurd (allowed_of_reads hk c hmem) hc
    · rw [List.length_append]
      omega
  | @number run after hrun hnumeral =>
    have hlexemes := (lexemes_of_isRun isClass_isNumeralChar hrun).symm.trans h
    rcases mem_or_exists_append hlexemes with hmem | ⟨es, hes⟩
    · obtain ⟨k, hk⟩ := hread run hmem
      exact absurd (isNumeral_of_reads hk hrun.all) hnumeral
    · rw [← flatten_lexemes before, hes, List.flatten_append, List.length_append]
      omega

/-- A run of digits and points does not start with a character that may not stand in a line. -/
theorem not_isRun_of_not_allowed {before run after after' : List Char} {c : Char}
    (h : line = before ++ c :: after) (hc : ¬Allowed c) :
    ¬IsRun Decimal.isNumeralChar line before run after' := by
  intro hrun
  have htail := List.append_cancel_left (h.symm.trans hrun.line_eq)
  obtain ⟨d, rest, rfl⟩ := List.exists_cons_of_ne_nil hrun.ne_nil
  obtain ⟨rfl, -⟩ := List.cons.inj htail
  exact hc (allowed_of_isNumeralChar (hrun.all c List.mem_cons_self))

/-- At one place of a line there is one offence at most. -/
theorem Offence.unique {before : List Char} {cause' : LexError} (h : Offence line before cause)
    (h' : Offence line before cause') : cause = cause' := by
  cases h with
  | @character c after hline hc =>
    cases h' with
    | @character c' after' hline' _ =>
      obtain ⟨rfl, -⟩ := List.cons.inj (List.append_cancel_left (hline.symm.trans hline'))
      rfl
    | number hrun _ => exact absurd hrun (not_isRun_of_not_allowed hline hc)
  | @number run after hrun _ =>
    cases h' with
    | character hline' hc' => exact absurd hrun (not_isRun_of_not_allowed hline' hc')
    | @number run' after' hrun' _ =>
      have hlexemes := (lexemes_of_isRun isClass_isNumeralChar hrun).symm.trans
        (lexemes_of_isRun isClass_isNumeralChar hrun')
      obtain ⟨rfl, -⟩ := List.cons.inj (List.append_cancel_left hlexemes)
      rfl

theorem Offence.exists_eq_append {before : List Char} (h : Offence line before cause) :
    ∃ rest, line = before ++ rest := by
  cases h with
  | character hline _ => exact ⟨_, hline⟩
  | number hrun _ => exact ⟨_, hrun.line_eq⟩

end Offences

/-! ## Scanning a line -/

section Scan

variable {line : String} {tokens : List Token} {cause : LexError}

theorem tiling_of_scan (h : scan line = .ok tokens) : Tiling line.toList [] tokens := by
  have hlexemes : lexemes line.toList = [] ++ lexemes line.toList := rfl
  exact tiling_of_ofLexemes hlexemes h

/-- A line with tokens has no offence. -/
theorem not_offence_of_scan (h : scan line = .ok tokens) (before : List Char) :
    ¬Offence line.toList before cause := by
  intro hoffence
  have hlength := le_length_of_offence (List.append_nil _).symm h hoffence
  rw [flatten_lexemes] at hlength
  -- an offence takes up at least one character of the line
  cases hoffence with
  | character hline _ =>
    rw [hline, List.length_append, List.length_cons] at hlength
    omega
  | number hrun _ =>
    have hrunLength := List.length_pos_iff.mpr hrun.ne_nil
    have hlineLength := congrArg List.length hrun.line_eq
    rw [List.length_append, List.length_append] at hlineLength
    omega

/-- An error of scanning is put down to the first offence, and what is before that has tokens. -/
theorem exists_offence_of_scan (h : scan line = .error cause) :
    ∃ before, Offence line.toList before cause ∧
      (∀ before' cause', Offence line.toList before' cause' → before.length ≤ before'.length) ∧
      ∃ tokens, scan (String.ofList before) = .ok tokens := by
  obtain ⟨read, c, rest, others, tokens, hwords, hread, hwrong⟩ :=
    exists_of_ofLexemes_error (fun word => ne_nil_of_mem_lexemes) h
  rw [Nat.zero_add] at hwrong
  have hmem : c :: rest ∈ lexemes line.toList := by
    rw [hwords]
    exact List.mem_append_right _ List.mem_cons_self
  obtain ⟨hspoils, hspan⟩ := spoils_of_ofLexeme (run_of_mem_lexemes hmem) hwrong
  have hfront := (lexemes_flatten_of_append hwords).1
  have hscan : scan (String.ofList read.flatten) = .ok tokens := by
    rw [scan, String.toList_ofList, hfront]
    exact hread
  exact ⟨read.flatten, offence_of_spoils hwords hspoils hspan,
    fun _ _ hoffence => le_length_of_offence hwords hread hoffence, tokens, hscan⟩

theorem scan_eq_error_iff : scan line = .error cause ↔
    ∃ before, Offence line.toList before cause ∧
      (∀ before' cause', Offence line.toList before' cause' → before.length ≤ before'.length) ∧
      ∃ tokens, scan (String.ofList before) = .ok tokens := by
  refine ⟨exists_offence_of_scan, ?_⟩
  rintro ⟨before, hoffence, hfirst, -⟩
  cases hscan : scan line with
  | ok tokens => exact absurd hoffence (not_offence_of_scan hscan before)
  | error cause' =>
    obtain ⟨before', hoffence', hfirst', -⟩ := exists_offence_of_scan hscan
    obtain ⟨rest, hrest⟩ := hoffence.exists_eq_append
    obtain ⟨rest', hrest'⟩ := hoffence'.exists_eq_append
    have hlength := Nat.le_antisymm (hfirst _ _ hoffence') (hfirst' _ _ hoffence)
    obtain ⟨rfl, -⟩ := List.append_inj (hrest.symm.trans hrest') hlength
    rw [hoffence'.unique hoffence]

theorem exists_scan_iff : (∃ tokens, scan line = .ok tokens) ↔
    (∀ c ∈ line.toList, Allowed c) ∧ ∀ before run after,
      IsRun Decimal.isNumeralChar line.toList before run after → IsNumeral run := by
  constructor
  · rintro ⟨tokens, h⟩
    refine ⟨fun c hc => ?_, fun before run after hrun => ?_⟩
    · obtain ⟨before, after, hline⟩ := List.append_of_mem hc
      exact Classical.not_not.mp fun hnot => not_offence_of_scan h before (.character hline hnot)
    · exact Classical.not_not.mp fun hnot => not_offence_of_scan h before (.number hrun hnot)
  · rintro ⟨hallowed, hnumerals⟩
    cases h : scan line with
    | ok tokens => exact ⟨tokens, rfl⟩
    | error cause =>
      obtain ⟨before, hoffence, -⟩ := exists_offence_of_scan h
      cases hoffence with
      | character hline hc =>
        refine absurd (hallowed _ ?_) hc
        rw [hline]
        exact List.mem_append_right _ List.mem_cons_self
      | number hrun hnot => exact absurd (hnumerals _ _ _ hrun) hnot

/-- Each character of a line with tokens takes one byte. -/
theorem utf8ByteSize_of_scan (h : scan line = .ok tokens) : line.utf8ByteSize = line.length := by
  have hsize := utf8ByteSize_of_allowed (exists_scan_iff.mp ⟨tokens, h⟩).1
  rwa [String.ofList_toList, String.length_toList] at hsize

end Scan

/-- Reading a line character by character gives its tokens. It has tokens exactly if each character
may stand in it and each run of digits and points is a numeral; then these tile it, and it has as
many bytes as characters, which is the length that is logged. Otherwise the first offence is the
error, and what stands before it has tokens. -/
theorem scan_tiling (line : String) :
    Reader.scan line = scan line ∧
    ((∃ tokens, scan line = .ok tokens) ↔
      (∀ c ∈ line.toList, Allowed c) ∧ ∀ before run after,
        IsRun Decimal.isNumeralChar line.toList before run after → IsNumeral run) ∧
    (∀ tokens, scan line = .ok tokens → Tiling line.toList [] tokens ∧
      Span.Contiguous 0 (tokens.map span) line.length ∧ (∀ c ∈ line.toList, c.toNat < 128) ∧
      line.utf8ByteSize = line.length) ∧
    (∀ limits tokens, tokenize line = .ok tokens → (compileRecords limits line).head? =
      some (.tokenized line.length tokens.length)) ∧
    ∀ cause, scan line = .error cause ↔
      ∃ before, Offence line.toList before cause ∧
        (∀ before' cause', Offence line.toList before' cause' → before.length ≤ before'.length) ∧
        ∃ tokens, scan (String.ofList before) = .ok tokens := by
  refine ⟨Reader.scan_eq line, exists_scan_iff, fun tokens h => ?_, fun limits tokens h => ?_,
    fun cause => scan_eq_error_iff⟩
  · have htiling := tiling_of_scan h
    have hplaces := htiling.contiguous
    rw [String.length_toList] at hplaces
    have hallowed := (exists_scan_iff.mp ⟨tokens, h⟩).1
    exact ⟨htiling, hplaces, fun c hc => toNat_lt_of_allowed (hallowed c hc),
      utf8ByteSize_of_scan h⟩
  · obtain ⟨scanned, hscan, -⟩ := bind_eq_ok.mp h
    rw [compileRecords, h, ← utf8ByteSize_of_scan hscan]
    rfl

/-- A numeral with a word right behind it, and a numeral with two points behind a part of the line
that can be read. -/
theorem scan_tiling_two_points :
    let tokens : List Token := [.plain (.number 2.5) ⟨0, 3⟩, .plain (.var "xSin") ⟨3, 7⟩]
    scan "2.5xSin" = .ok tokens ∧ Tiling "2.5xSin".toList [] tokens ∧
      (compileRecords .standard "2.5xSin").head? = some (.tokenized 7 2) ∧
      ∃ before, Offence "x*1.2.3+é".toList before (.malformedNumber "1.2.3" ⟨2, 7⟩) ∧
        ∃ tokens, scan (String.ofList before) = .ok tokens := by
  intro tokens
  have hscan : scan "2.5xSin" = .ok tokens := by decide +kernel
  have htokens : tokenize "2.5xSin" = .ok tokens := by decide +kernel
  have hwrong : scan "x*1.2.3+é" = .error (.malformedNumber "1.2.3" ⟨2, 7⟩) := by decide +kernel
  obtain ⟨-, -, hok, hlog, -⟩ := scan_tiling "2.5xSin"
  obtain ⟨-, -, -, -, herror⟩ := scan_tiling "x*1.2.3+é"
  obtain ⟨before, hoffence, -, hbefore⟩ := (herror _).mp hwrong
  exact ⟨hscan, (hok tokens hscan).1, hlog .standard tokens htokens, before, hoffence, hbefore⟩

end Token

end Reckon
