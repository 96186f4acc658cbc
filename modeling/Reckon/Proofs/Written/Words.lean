import Mathlib.Data.List.SplitBy
import Reckon.Expr.Text
import Reckon.Proofs.Decimal.Reading
import Reckon.Proofs.Number.Bits
import Reckon.Proofs.Token.Marks
import Reckon.Proofs.Written.Normal

/-!
# The words of a written expression

The text of an expression is a row of words, each with the kind of token that it is read as
(`Expr.words`). Two names or numerals never stand next to each other, so the lexemes of the text are
these words, and scanning gives plain tokens of these kinds (`exists_scan_text`).
-/

namespace Reckon

open Token (Kind)

/-- A stretch of a text and the kind of token that it is read as. -/
structure Word where
  chars : List Char
  kind : Kind

namespace Word

def plus : Word := ⟨['+'], .plus⟩

def minus : Word := ⟨['-'], .minus⟩

def times : Word := ⟨['*'], .times⟩

def divide : Word := ⟨['/'], .divide⟩

def power : Word := ⟨['^'], .power⟩

def opening : Word := ⟨['('], .openBracket⟩

def closing : Word := ⟨[')'], .closeBracket⟩

/-- A finite number without its sign. -/
def magnitude (x : Float) : Word :=
  ⟨(Decimal.shortest (Decimal.rank x)).positionalChars 0, .number x.abs⟩

/-- The division of a digit by zero. -/
def overZero (digit : Char) (x : Float) : List Word :=
  [⟨[digit], .number x⟩, divide, ⟨['0'], .number 0⟩]

/-- Words in brackets. -/
def bracketed (ws : List Word) : List Word := opening :: (ws ++ [closing])

end Word

/-- The word of a sign, if there is one. -/
def Sign.words : Sign → List Word
  | positive => []
  | negative => [.minus]

namespace Expr

/-- The words of a number. -/
def literalWords (x : Float) : List Word :=
  if x.isNaN then Sign.positive.words ++ Word.bracketed (Word.overZero '0' 0)
  else if x.isInf then
    (if x < 0 then Sign.negative else .positive).words ++ Word.bracketed (Word.overZero '1' 1)
  else (if Decimal.signBit x then Sign.negative else .positive).words ++ [.magnitude x]

mutual

/-- The words of an expression. -/
def words : Expr → List Word
  | literal x sign => literalWords (sign.apply x)
  | var name sign => sign.words ++ [⟨name.toList, .var name⟩]
  | call function argument sign =>
    sign.words ++ ⟨function.toList, .function function⟩ :: Word.bracketed (words argument)
  | sum terms sign => sign.words ++ Word.bracketed (wordsJoined .plus terms)
  | product [] sign => sign.words ++ Word.bracketed [⟨['1'], .number 1⟩]
  | product factors sign => sign.words ++ Word.bracketed (wordsJoined .times factors)
  | power operands sign => sign.words ++ Word.bracketed (wordsJoined .power operands)
termination_by structural e => e

/-- The words of some expressions with `w` between them. -/
def wordsJoined (w : Word) : List Expr → List Word
  | [] => []
  | e :: es => words e ++ wordsAfter w es
termination_by structural es => es

/-- The words of some expressions with `w` before each of them. -/
def wordsAfter (w : Word) : List Expr → List Word
  | [] => []
  | e :: es => w :: (words e ++ wordsAfter w es)
termination_by structural es => es

end

/-! ## The words make up the text -/

theorem flatMap_words_sign (sign : Sign) : sign.words.flatMap Word.chars = sign.chars := by
  cases sign <;> rfl

theorem flatMap_bracketed (ws : List Word) :
    (Word.bracketed ws).flatMap Word.chars = '(' :: (ws.flatMap Word.chars ++ [')']) := by
  rw [Word.bracketed, List.flatMap_cons, List.flatMap_append]
  rfl

theorem flatMap_literalWords (x : Float) :
    (literalWords x).flatMap Word.chars = literalChars x := by
  unfold literalWords literalChars
  split
  · rfl
  · rename_i hnan
    split
    · split <;> rfl
    · rename_i hinf
      rw [Layout.chars, if_neg hnan, if_neg hinf]
      simp only [List.flatMap_append, List.flatMap_cons, List.flatMap_nil, List.append_nil]
      split <;> rfl

mutual

theorem flatMap_words (e : Expr) : (words e).flatMap Word.chars = chars e := by
  match e with
  | literal x sign => exact flatMap_literalWords (sign.apply x)
  | var name sign => simp [words, chars, flatMap_words_sign]
  | call function argument sign =>
    have hargument := flatMap_words argument
    simp [words, chars, flatMap_words_sign, flatMap_bracketed, hargument]
  | sum terms sign =>
    have hterms := flatMap_wordsJoined .plus '+' rfl terms
    simp [words, chars, flatMap_words_sign, flatMap_bracketed, hterms]
  | product [] sign => simp [words, chars, flatMap_words_sign, flatMap_bracketed]
  | product (e :: es) sign =>
    have hfactors := flatMap_wordsJoined .times '*' rfl (e :: es)
    simp [words, chars, flatMap_words_sign, flatMap_bracketed, hfactors]
  | power operands sign =>
    have hoperands := flatMap_wordsJoined .power '^' rfl operands
    simp [words, chars, flatMap_words_sign, flatMap_bracketed, hoperands]
termination_by structural e

theorem flatMap_wordsJoined (w : Word) (c : Char) (hw : w.chars = [c]) (es : List Expr) :
    (wordsJoined w es).flatMap Word.chars = charsJoined c es := by
  match es with
  | [] => rfl
  | e :: es =>
    rw [wordsJoined, charsJoined, List.flatMap_append, flatMap_words e,
      flatMap_wordsAfter w c hw es]
termination_by structural es

theorem flatMap_wordsAfter (w : Word) (c : Char) (hw : w.chars = [c]) (es : List Expr) :
    (wordsAfter w es).flatMap Word.chars = charsAfter c es := by
  match es with
  | [] => rfl
  | e :: es =>
    rw [wordsAfter, charsAfter, List.flatMap_cons, List.flatMap_append, flatMap_words e,
      flatMap_wordsAfter w c hw es, hw]
    rfl
termination_by structural es

end

end Expr

/-! ## Words that can be told apart -/

namespace Word

/-- Whether a word is a single character that goes on with no other. -/
def IsSymbol (w : Word) : Prop :=
  ∃ c, w.chars = [c] ∧ c.isAlpha = false ∧ Decimal.isNumeralChar c = false

/-- Whether a word is a run of characters that is read as a token of its kind. -/
structure Legible (w : Word) : Prop where
  ne_nil : w.chars ≠ []
  run : w.chars.IsChain fun x y => sameRun x y = true
  kind : ∀ span c rest, w.chars = c :: rest → Kind.ofLexeme span c rest = .ok w.kind

/-- Whether a run in one word cannot go on in the other. -/
def Apart (w v : Word) : Prop := w.IsSymbol ∨ v.IsSymbol

/-- Whether all words are legible and no two names or numerals stand next to each other. -/
def Readable (ws : List Word) : Prop := (∀ w ∈ ws, w.Legible) ∧ ws.IsChain Apart

theorem isSymbol_mk {c : Char} {k : Kind}
    (h : c.isAlpha = false ∧ Decimal.isNumeralChar c = false) : (Word.mk [c] k).IsSymbol :=
  ⟨c, rfl, h⟩

theorem legible_symbol {c : Char} {k : Kind}
    (h : c.isAlpha = false ∧ Decimal.isNumeralChar c = false) (hk : Kind.ofSymbol? c = some k) :
    (Word.mk [c] k).Legible := by
  obtain ⟨halpha, hnumeral⟩ := h
  have hcase := isAlpha_eq_false.mp halpha
  refine ⟨List.cons_ne_nil _ _, List.isChain_singleton c, ?_⟩
  intro span c' rest hchars
  obtain ⟨rfl, rfl⟩ := List.cons.inj hchars
  simp [Kind.ofLexeme, hcase, hnumeral, hk]

theorem legible_opening : opening.Legible := legible_symbol (by decide) rfl

theorem legible_closing : closing.Legible := legible_symbol (by decide) rfl

theorem isSymbol_opening : opening.IsSymbol := isSymbol_mk (by decide)

theorem isSymbol_closing : closing.IsSymbol := isSymbol_mk (by decide)

theorem isChain_of_forall {p : Char → Bool}
    (hp : ∀ x y, p x = true → p y = true → sameRun x y = true)
    {cs : List Char} (h : ∀ x ∈ cs, p x = true) : cs.IsChain fun x y => sameRun x y = true := by
  induction cs with
  | nil => exact List.isChain_nil
  | cons c cs ih =>
    cases cs with
    | nil => exact List.isChain_singleton c
    | cons d cs =>
      rw [List.forall_mem_cons] at h
      exact List.isChain_cons_cons.mpr ⟨hp c d h.1 (h.2 d List.mem_cons_self), ih h.2⟩

theorem sameRun_of_isAlpha {x y : Char} (hx : x.isAlpha = true) (hy : y.isAlpha = true) :
    sameRun x y = true := by
  simp [sameRun, hx, hy]

theorem sameRun_of_isNumeralChar {x y : Char} (hx : Decimal.isNumeralChar x = true)
    (hy : Decimal.isNumeralChar y = true) : sameRun x y = true := by
  simp [sameRun, hx, hy]

theorem legible_name {first : Char → Bool} {name : String} {k : Kind}
    (hname : Expr.IsName first name) (hfirst : ∀ c, first c = true → c.isAlpha = true)
    (hkind : ∀ span c rest, first c = true → String.ofList (c :: rest) = name →
      Kind.ofLexeme span c rest = .ok k) : (Word.mk name.toList k).Legible := by
  obtain ⟨c, rest, hchars, hc, hrest⟩ := hname
  refine ⟨by simp [hchars], ?_, ?_⟩
  · rw [hchars]
    exact isChain_of_forall (fun x y => sameRun_of_isAlpha)
      (List.forall_mem_cons.mpr ⟨hfirst c hc, hrest⟩)
  · intro span c' rest' hchars'
    obtain ⟨rfl, rfl⟩ := List.cons.inj (hchars.symm.trans hchars')
    exact hkind span c rest hc (by rw [← hchars, String.ofList_toList])

theorem legible_var {name : String} (h : Expr.IsName Char.isLower name) :
    (Word.mk name.toList (.var name)).Legible := by
  refine legible_name h (fun c hc => isAlpha_iff.mpr (.inr hc)) ?_
  intro span c rest hc htext
  simp [Kind.ofLexeme, not_isUpper_of_isLower hc, hc, htext]

theorem legible_function {name : String} (h : Expr.IsName Char.isUpper name) :
    (Word.mk name.toList (.function name)).Legible := by
  refine legible_name h (fun c hc => isAlpha_iff.mpr (.inl hc)) ?_
  intro span c rest hc htext
  simp [Kind.ofLexeme, hc, htext]

theorem legible_numeral {cs : List Char} {x : Float} (hne : cs ≠ [])
    (hchars : ∀ c ∈ cs, Decimal.isNumeralChar c = true)
    (hread : Decimal.readNumeral? cs = some x) : (Word.mk cs (.number x)).Legible := by
  refine ⟨hne, isChain_of_forall (fun x y => sameRun_of_isNumeralChar) hchars, ?_⟩
  intro span c rest hcons
  change cs = c :: rest at hcons
  subst hcons
  have hc := hchars c List.mem_cons_self
  have hcase := isAlpha_eq_false.mp (not_isAlpha_of_isNumeralChar hc)
  simp [Kind.ofLexeme, hcase, hc, hread]

theorem legible_magnitude {x : Float} (hnan : x.isNaN = false) (hinf : x.isInf = false) :
    (magnitude x).Legible := by
  have hread := Decimal.readNumeral?_shortest (Nat.le_of_lt (Decimal.rank_lt_infinity hnan hinf))
  rw [Decimal.ofRank_rank] at hread
  obtain ⟨c, rest, hcons, -, hchars⟩ :=
    Decimal.positionalChars_eq_cons (Decimal.shortest (Decimal.rank x))
  refine legible_numeral ?_ ?_ hread
  · rw [hcons]
    exact List.cons_ne_nil c rest
  · rw [hcons]
    exact hchars

theorem legible_zero : (Word.mk ['0'] (.number 0)).Legible :=
  legible_numeral (List.cons_ne_nil _ _) (List.forall_mem_singleton.mpr rfl) (by decide +kernel)

theorem legible_one : (Word.mk ['1'] (.number 1)).Legible :=
  legible_numeral (List.cons_ne_nil _ _) (List.forall_mem_singleton.mpr rfl) (by decide +kernel)

/-! ## Rows of words that can be told apart -/

theorem Readable.cons {w : Word} {ws : List Word} (h : Readable ws) (hw : w.Legible)
    (hsymbol : w.IsSymbol) : Readable (w :: ws) :=
  ⟨List.forall_mem_cons.mpr ⟨hw, h.1⟩, List.isChain_cons.mpr ⟨fun _ _ => .inl hsymbol, h.2⟩⟩

theorem Readable.append {ws vs : List Word} (hws : Readable ws) (hvs : Readable vs)
    (hsymbol : ∀ v ∈ vs.head?, v.IsSymbol) : Readable (ws ++ vs) :=
  ⟨List.forall_mem_append.mpr ⟨hws.1, hvs.1⟩,
    List.isChain_append.mpr ⟨hws.2, hvs.2, fun _ _ v hv => .inr (hsymbol v hv)⟩⟩

theorem readable_singleton {w : Word} (h : w.Legible) : Readable [w] :=
  ⟨List.forall_mem_singleton.mpr h, List.isChain_singleton w⟩

theorem Readable.bracketed {ws : List Word} (h : Readable ws) :
    Readable (bracketed ws) := by
  refine Readable.cons (h.append (readable_singleton legible_closing) ?_) legible_opening
    isSymbol_opening
  rintro v ⟨⟩
  exact isSymbol_closing

theorem Readable.signed {ws : List Word} (h : Readable ws) (sign : Sign) :
    Readable (sign.words ++ ws) := by
  cases sign with
  | positive => exact h
  | negative => exact h.cons (legible_symbol (by decide) rfl) (isSymbol_mk (by decide))

theorem readable_overZero {digit : Char} {x : Float}
    (h : (Word.mk [digit] (.number x)).Legible) : Readable (overZero digit x) := by
  have hrest : Readable [divide, ⟨['0'], .number 0⟩] :=
    (readable_singleton legible_zero).cons (legible_symbol (by decide) rfl)
      (isSymbol_mk (by decide))
  refine (readable_singleton h).append hrest ?_
  rintro v ⟨⟩
  exact isSymbol_mk (by decide)

end Word

namespace Expr

open Word (Readable)

theorem readable_literalWords (x : Float) : Readable (literalWords x) := by
  unfold literalWords
  split
  · exact (Word.readable_overZero Word.legible_zero).bracketed.signed _
  · rename_i hnan
    split
    · exact (Word.readable_overZero Word.legible_one).bracketed.signed _
    · rename_i hinf
      exact (Word.readable_singleton (Word.legible_magnitude (Bool.eq_false_iff.mpr hnan)
        (Bool.eq_false_iff.mpr hinf))).signed _

theorem isSymbol_of_head?_wordsAfter {w : Word} (hw : w.IsSymbol) (es : List Expr) :
    ∀ v ∈ (wordsAfter w es).head?, v.IsSymbol := by
  cases es with
  | nil => intro v hv; contradiction
  | cons e es => rintro v ⟨⟩; exact hw

mutual

theorem readable_words (e : Expr) (h : e.WellFormed) : Readable (words e) := by
  match e with
  | literal x sign => exact readable_literalWords (sign.apply x)
  | var name sign => exact (Word.readable_singleton (Word.legible_var h)).signed sign
  | call function argument sign =>
    have hargument := (readable_words argument h.2).bracketed
    refine Readable.signed ?_ sign
    refine Readable.append (Word.readable_singleton (Word.legible_function h.1)) hargument ?_
    rintro v ⟨⟩
    exact Word.isSymbol_opening
  | sum terms sign =>
    refine (readable_wordsJoined .plus ?_ ?_ terms h).bracketed.signed sign
    · exact Word.legible_symbol (by decide) rfl
    · exact Word.isSymbol_mk (by decide)
  | product [] sign => exact (Word.readable_singleton Word.legible_one).bracketed.signed sign
  | product (e :: es) sign =>
    refine (readable_wordsJoined .times ?_ ?_ (e :: es) h.2).bracketed.signed sign
    · exact Word.legible_symbol (by decide) rfl
    · exact Word.isSymbol_mk (by decide)
  | power operands sign =>
    refine (readable_wordsJoined .power ?_ ?_ operands h.2.2).bracketed.signed sign
    · exact Word.legible_symbol (by decide) rfl
    · exact Word.isSymbol_mk (by decide)
termination_by structural e

theorem readable_wordsJoined (w : Word) (hw : w.Legible) (hsymbol : w.IsSymbol) (es : List Expr)
    (h : AllWellFormed es) : Readable (wordsJoined w es) := by
  match es with
  | [] => exact ⟨List.forall_mem_nil _, List.isChain_nil⟩
  | e :: es =>
    exact (readable_words e h.1).append (readable_wordsAfter w hw hsymbol es h.2)
      (isSymbol_of_head?_wordsAfter hsymbol es)
termination_by structural es

theorem readable_wordsAfter (w : Word) (hw : w.Legible) (hsymbol : w.IsSymbol) (es : List Expr)
    (h : AllWellFormed es) : Readable (wordsAfter w es) := by
  match es with
  | [] => exact ⟨List.forall_mem_nil _, List.isChain_nil⟩
  | e :: es =>
    refine Readable.cons ?_ hw hsymbol
    exact (readable_words e h.1).append (readable_wordsAfter w hw hsymbol es h.2)
      (isSymbol_of_head?_wordsAfter hsymbol es)
termination_by structural es

end

end Expr

/-! ## Scanning the words -/

namespace Word

theorem sameRun_eq_false {w v : Word} (hw : w.chars ≠ []) (hv : v.chars ≠ []) (h : Apart w v) :
    sameRun (w.chars.getLast hw) (v.chars.head hv) = false := by
  rcases h with ⟨c, hchars, halpha, hnumeral⟩ | ⟨c, hchars, halpha, hnumeral⟩
  · simp [sameRun, hchars, halpha, hnumeral]
  · simp [sameRun, hchars, halpha, hnumeral]

/-- The lexemes of a text of readable words are the words. -/
theorem lexemes_flatMap {ws : List Word} (h : Readable ws) :
    lexemes (ws.flatMap chars) = ws.map chars := by
  rw [lexemes, List.flatMap_def]
  refine List.splitBy_flatten ?_ ?_ ?_
  · intro hmem
    obtain ⟨w, hw, hnil⟩ := List.mem_map.mp hmem
    exact (h.1 w hw).ne_nil hnil
  · intro m hm
    obtain ⟨w, hw, rfl⟩ := List.mem_map.mp hm
    exact (h.1 w hw).run
  · rw [List.isChain_map]
    refine h.2.imp_of_mem_imp ?_
    intro w v hw hv hapart
    exact ⟨(h.1 w hw).ne_nil, (h.1 v hv).ne_nil, sameRun_eq_false _ _ hapart⟩

theorem exists_ofLexemes {ws : List Word} (h : ∀ w ∈ ws, w.Legible) (start : Nat) :
    ∃ tokens, Token.ofLexemes start (ws.map chars) = .ok tokens ∧
      tokens.map Token.kind = ws.map kind ∧ ∀ t ∈ tokens, t.IsPlain := by
  induction ws generalizing start with
  | nil => exact ⟨[], rfl, rfl, List.forall_mem_nil _⟩
  | cons w ws ih =>
    rw [List.forall_mem_cons] at h
    obtain ⟨hw, hws⟩ := h
    obtain ⟨c, rest, hchars⟩ := List.exists_cons_of_ne_nil hw.ne_nil
    obtain ⟨tokens, htokens, hkinds, hplain⟩ := ih hws (start + (c :: rest).length)
    refine ⟨Token.plain w.kind ⟨start, start + (c :: rest).length⟩ :: tokens, ?_, ?_, ?_⟩
    · rw [List.map_cons, hchars, Token.ofLexemes, hw.kind _ c rest hchars]
      simp only [bind, Except.bind, htokens, pure, Except.pure]
    · rw [List.map_cons, List.map_cons, hkinds]
      rfl
    · exact List.forall_mem_cons.mpr ⟨⟨rfl, rfl⟩, hplain⟩

end Word

/-- The text of a well-formed expression is scanned as plain tokens of the kinds of its words. -/
theorem exists_scan_text {e : Expr} (h : e.WellFormed) :
    ∃ tokens, Token.scan e.text = .ok tokens ∧
      tokens.map Token.kind = e.words.map Word.kind ∧ ∀ t ∈ tokens, t.IsPlain := by
  have hreadable := Expr.readable_words e h
  rw [Token.scan, Expr.text, String.toList_ofList, ← Expr.flatMap_words,
    Word.lexemes_flatMap hreadable]
  exact Word.exists_ofLexemes hreadable.1 0

end Reckon
