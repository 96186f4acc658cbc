import Reckon.Proofs.Token.Runs

/-!
# Reading a line character by character

Tokens can also be read in one pass over the line: a reader looks at the next character, takes
characters as long as they are of its class, and counts what it takes. It gives the tokens of the
lexemes, or the same error (`Reader.scan_eq`).
-/

namespace Reckon

/-- What is left of a line, and how many characters are taken. -/
structure Reader where
  index : Nat
  rest : List Char

namespace Reader

open Token (Kind plain)

/-- Takes characters up to the first one that is not of a class. -/
def takeWhile (p : Char → Bool) (index : Nat) : List Char → List Char × Reader
  | [] => ([], ⟨index, []⟩)
  | c :: rest =>
    if p c then
      let taken := takeWhile p (index + 1) rest
      (c :: taken.1, taken.2)
    else ([], ⟨index, c :: rest⟩)

/-- Takes one token, where `c` is the next character. -/
def readToken (index : Nat) (c : Char) (rest : List Char) : Except LexError (Kind × Reader) :=
  if c.isAlpha then
    let taken := takeWhile Char.isAlpha index (c :: rest)
    let name := String.ofList taken.1
    .ok (if c.isUpper then .function name else .var name, taken.2)
  else if Decimal.isNumeralChar c then
    let taken := takeWhile Decimal.isNumeralChar index (c :: rest)
    match Decimal.readNumeral? taken.1 with
    | some x => .ok (.number x, taken.2)
    | none => .error (.malformedNumber (String.ofList taken.1) ⟨index, taken.2.index⟩)
  else
    match Kind.ofSymbol? c with
    | some k => .ok (k, ⟨index + 1, rest⟩)
    | none => .error (.invalidCharacter c ⟨index, index + 1⟩)

theorem length_takeWhile_le (p : Char → Bool) (index : Nat) (cs : List Char) :
    (takeWhile p index cs).2.rest.length ≤ cs.length := by
  induction cs generalizing index with
  | nil => exact Nat.le_refl _
  | cons c rest ih =>
    rw [takeWhile]
    split
    · exact Nat.le_succ_of_le (ih (index + 1))
    · exact Nat.le_refl _

/-- A token takes at least the next character. -/
theorem length_readToken_le {index : Nat} {c : Char} {rest : List Char} {k : Kind} {r : Reader}
    (h : readToken index c rest = .ok (k, r)) : r.rest.length ≤ rest.length := by
  rw [readToken] at h
  split at h
  · rename_i halpha
    obtain ⟨-, rfl⟩ := Prod.mk.inj (Except.ok.inj h)
    rw [takeWhile, if_pos halpha]
    exact length_takeWhile_le _ _ _
  · split at h
    · rename_i hnumeral
      simp only at h
      split at h
      · obtain ⟨-, rfl⟩ := Prod.mk.inj (Except.ok.inj h)
        rw [takeWhile, if_pos hnumeral]
        exact length_takeWhile_le _ _ _
      · contradiction
    · split at h
      · obtain ⟨-, rfl⟩ := Prod.mk.inj (Except.ok.inj h)
        exact Nat.le_refl _
      · contradiction

/-- Pushes the tokens of what is left of a line behind those of what is taken. -/
def scanFrom (pushed : List Token) (r : Reader) : Except LexError (List Token) :=
  match _hrest : r.rest with
  | [] => .ok pushed
  | c :: rest =>
    match _hread : readToken r.index c rest with
    | .error cause => .error cause
    | .ok (k, r') => scanFrom (pushed ++ [plain k ⟨r.index, r'.index⟩]) r'
termination_by r.rest.length
decreasing_by
  rw [_hrest, List.length_cons]
  exact Nat.lt_succ_of_le (length_readToken_le _hread)

theorem scanFrom_nil (pushed : List Token) (index : Nat) :
    scanFrom pushed ⟨index, []⟩ = .ok pushed := by
  rw [scanFrom]

theorem scanFrom_cons (pushed : List Token) (index : Nat) (c : Char) (rest : List Char) :
    scanFrom pushed ⟨index, c :: rest⟩ = (readToken index c rest).bind fun taken =>
      scanFrom (pushed ++ [plain taken.1 ⟨index, taken.2.index⟩]) taken.2 := by
  rw [scanFrom]
  simp only
  split
  · rename_i hread
    rw [hread]
    rfl
  · rename_i hread
    rw [hread]
    rfl

/-- The tokens of a line in one pass. -/
def scan (line : String) : Except LexError (List Token) := scanFrom [] ⟨0, line.toList⟩

/-! ## Lexemes in one pass -/

section Lexemes

variable {c : Char} {rest after : List Char}

theorem takeWhile_run {p : Char → Bool} {run : List Char} (hrun : ∀ d ∈ run, p d = true)
    (hafter : ∀ d ∈ after.head?, p d = false) (index : Nat) :
    takeWhile p index (run ++ after) = (run, ⟨index + run.length, after⟩) := by
  induction run generalizing index with
  | nil =>
    cases after with
    | nil => rfl
    | cons d after => rw [List.nil_append, takeWhile, hafter d rfl]; rfl
  | cons d run ih =>
    rw [List.forall_mem_cons] at hrun
    rw [List.cons_append, takeWhile, if_pos hrun.1, ih hrun.2, List.length_cons]
    simp only [Nat.add_assoc, Nat.add_comm 1]

/-- The reader takes the next lexeme, and finds in it what there is to find. -/
theorem readToken_lexeme {others : List (List Char)}
    (h : lexemes ((c :: rest) ++ others.flatten) = (c :: rest) :: others) (index : Nat) :
    readToken index c (rest ++ others.flatten) =
      (Kind.ofLexeme ⟨index, index + (c :: rest).length⟩ c rest).map
        (·, ⟨index + (c :: rest).length, others.flatten⟩) := by
  have hmem : c :: rest ∈ lexemes ((c :: rest) ++ others.flatten) := by
    rw [h]
    exact List.mem_cons_self
  have hrun := run_of_mem_lexemes hmem
  have htaken {p : Char → Bool} (hp : IsClass p) (hall : ∀ d ∈ c :: rest, p d = true) :
      takeWhile p index (c :: (rest ++ others.flatten)) =
        (c :: rest, ⟨index + (c :: rest).length, others.flatten⟩) := by
    have hsplit : lexemes ((c :: rest) ++ others.flatten) = [] ++ (c :: rest) :: others := h
    exact takeWhile_run hall (isRun_of_lexemes hp hsplit hall).right index
  rw [readToken, Kind.ofLexeme]
  cases halpha : c.isAlpha with
  | true =>
    rw [if_pos rfl, htaken isClass_isAlpha
      (List.forall_mem_cons.mpr ⟨halpha, Token.isAlpha_of_run hrun halpha⟩)]
    rcases isAlpha_iff.mp halpha with hupper | hlower
    · simp [hupper, Except.map]
    · simp [hlower, not_isUpper_of_isLower hlower, Except.map]
  | false =>
    obtain ⟨hupper, hlower⟩ := isAlpha_eq_false.mp halpha
    cases hnumeral : Decimal.isNumeralChar c with
    | true =>
      rw [htaken isClass_isNumeralChar
        (List.forall_mem_cons.mpr ⟨hnumeral, Token.isNumeralChar_of_run hrun hnumeral⟩)]
      cases hx : Decimal.readNumeral? (c :: rest) <;> simp [hupper, hlower, hx, Except.map]
    | false =>
      obtain rfl := Token.eq_nil_of_run hrun ⟨halpha, hnumeral⟩
      cases Kind.ofSymbol? c <;> simp [hupper, hlower, Except.map]

theorem scanFrom_eq {words : List (List Char)} (h : lexemes words.flatten = words)
    (pushed : List Token) (index : Nat) :
    scanFrom pushed ⟨index, words.flatten⟩ = (Token.ofLexemes index words).map (pushed ++ ·) := by
  induction words generalizing pushed index with
  | nil =>
    rw [List.flatten_nil, scanFrom_nil, Token.ofLexemes, Except.map, List.append_nil]
  | cons word words ih =>
    have hmem : word ∈ lexemes (word :: words).flatten := by
      rw [h]
      exact List.mem_cons_self
    obtain ⟨c, rest, rfl⟩ := List.exists_cons_of_ne_nil (ne_nil_of_mem_lexemes hmem)
    have hsplit : lexemes ((c :: rest) :: words).flatten = [c :: rest] ++ words := h
    have hwords := (lexemes_flatten_of_append hsplit).2
    have hread := readToken_lexeme h index
    rw [List.flatten_cons, List.cons_append, scanFrom_cons, hread, Token.ofLexemes]
    cases Kind.ofLexeme ⟨index, index + (c :: rest).length⟩ c rest with
    | error cause => rfl
    | ok k =>
      change scanFrom _ ⟨_, words.flatten⟩ = _
      rw [ih hwords]
      cases Token.ofLexemes (index + (c :: rest).length) words with
      | error cause => rfl
      | ok tokens => simp [Except.map, bind, Except.bind, pure, Except.pure]

end Lexemes

theorem scan_eq (line : String) : scan line = Token.scan line := by
  have hline := flatten_lexemes line.toList
  have h := scanFrom_eq (by rw [hline]) [] 0
  rw [hline] at h
  rw [scan, h, Token.scan]
  cases Token.ofLexemes 0 (lexemes line.toList) <;> rfl

end Reader

end Reckon
