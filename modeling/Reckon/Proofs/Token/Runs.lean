import Reckon.Proofs.Token.Lexemes

/-!
# Maximal runs

The letters of a line, and its digits and points, stand in runs that neither neighbour goes on with
(`IsRun`). Such a run is a lexeme of the line (`lexemes_of_isRun`), and a lexeme of letters or of
digits and points is such a run (`isRun_of_lexemes`).
-/

namespace Reckon

/-- Whether `run` stands in a line behind `before` and consists of characters of a class, where
neither neighbour is of this class. -/
structure IsRun (p : Char → Bool) (line before run after : List Char) : Prop where
  line_eq : line = before ++ (run ++ after)
  ne_nil : run ≠ []
  all : ∀ c ∈ run, p c = true
  left : ∀ c ∈ before.getLast?, p c = false
  right : ∀ c ∈ after.head?, p c = false

/-- Whether lexemes keep the characters of a class together, and apart from all others. -/
structure IsClass (p : Char → Bool) : Prop where
  right : ∀ c d, p c = true → sameRun c d = p d
  left : ∀ c d, p d = true → sameRun c d = p c

theorem isClass_isAlpha : IsClass Char.isAlpha where
  right c d h := by simp [sameRun, h, not_isNumeralChar_of_isAlpha h]
  left c d h := by simp [sameRun, h, not_isNumeralChar_of_isAlpha h]

theorem isClass_isNumeralChar : IsClass Decimal.isNumeralChar where
  right c d h := by simp [sameRun, h, not_isAlpha_of_isNumeralChar h]
  left c d h := by simp [sameRun, h, not_isAlpha_of_isNumeralChar h]

variable {p : Char → Bool} {line before run after : List Char}

/-- Characters of one class are one lexeme. -/
theorem lexemes_of_forall (hp : IsClass p) (hne : run ≠ []) (h : ∀ c ∈ run, p c = true) :
    lexemes run = [run] := by
  refine List.splitBy_of_isChain hne (List.Pairwise.isChain ?_)
  refine List.pairwise_of_forall_mem_list fun c hc d hd => ?_
  rw [hp.right c d (h c hc)]
  exact h d hd

/-- A maximal run is a lexeme between those of what stands before and behind it. -/
theorem lexemes_of_isRun (hp : IsClass p) (h : IsRun p line before run after) :
    lexemes line = lexemes before ++ run :: lexemes after := by
  have hbehind : lexemes (run ++ after) = lexemes run ++ lexemes after := by
    refine lexemes_append fun c hc d hd => ?_
    rw [hp.right c d (h.all c (List.mem_of_getLast? hc))]
    exact h.right d hd
  have hall : lexemes (before ++ (run ++ after)) = lexemes before ++ lexemes (run ++ after) := by
    refine lexemes_append fun c hc d hd => ?_
    rw [List.head?_append_of_ne_nil _ h.ne_nil] at hd
    rw [hp.left c d (h.all d (List.mem_of_head? hd))]
    exact h.left c hc
  rw [h.line_eq, hall, hbehind, lexemes_of_forall hp h.ne_nil h.all]
  rfl

/-- No lexeme of a line goes on with the next one. -/
theorem sameRun_of_lexemes {words others : List (List Char)}
    (h : lexemes line = words ++ others) :
    ∀ c ∈ words.flatten.getLast?, ∀ d ∈ others.flatten.head?, sameRun c d = false := by
  intro c hc d hd
  obtain ⟨-, -, -, hchain⟩ := List.splitBy_eq_iff.mp h
  obtain ⟨-, -, hjoint⟩ := List.isChain_append.mp hchain
  rcases List.eq_nil_or_concat words with rfl | ⟨front, word, rfl⟩
  · contradiction
  cases others with
  | nil => contradiction
  | cons other others =>
    rw [List.concat_eq_append] at hc hjoint
    obtain ⟨hword, hother, hfalse⟩ := hjoint word List.getLast?_concat other rfl
    rw [List.flatten_append, List.flatten_singleton,
      List.getLast?_append_of_ne_nil _ hword, List.getLast?_eq_some_getLast hword] at hc
    rw [List.flatten_cons, List.head?_append_of_ne_nil _ hother,
      List.head?_eq_some_head hother] at hd
    obtain rfl := Option.some.inj hc
    obtain rfl := Option.some.inj hd
    exact hfalse

/-- A lexeme that consists of characters of a class is a maximal run of them. -/
theorem isRun_of_lexemes (hp : IsClass p) {words others : List (List Char)}
    (h : lexemes line = words ++ run :: others) (hrun : ∀ c ∈ run, p c = true) :
    IsRun p line words.flatten run others.flatten := by
  have hmem : run ∈ lexemes line := by
    rw [h]
    exact List.mem_append_right _ List.mem_cons_self
  have hne := ne_nil_of_mem_lexemes hmem
  have hline : line = words.flatten ++ (run ++ others.flatten) := by
    rw [← List.flatten_cons, ← List.flatten_append, ← h, flatten_lexemes]
  refine ⟨hline, hne, hrun, fun c hc => ?_, fun d hd => ?_⟩
  · have hhead : (run :: others).flatten.head? = some (run.head hne) := by
      rw [List.flatten_cons, List.head?_append_of_ne_nil _ hne, List.head?_eq_some_head hne]
    rw [← hp.left c _ (hrun _ (List.head_mem hne))]
    exact sameRun_of_lexemes h c hc _ hhead
  · have hlast : (words ++ [run]).flatten.getLast? = some (run.getLast hne) := by
      rw [List.flatten_append, List.flatten_singleton, List.getLast?_append_of_ne_nil _ hne,
        List.getLast?_eq_some_getLast hne]
    rw [List.append_cons] at h
    rw [← hp.right _ d (hrun _ (List.getLast_mem hne))]
    exact sameRun_of_lexemes h _ hlast d hd

end Reckon
