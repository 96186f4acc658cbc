import Reckon.Proofs.Console.Bindings
import Reckon.Proofs.Token.Places
import Reckon.Proofs.Tree.Blame

/-!
# What the marks under a line show

The error of a line that does not compile has a place in the line, unless the line is only too deep
to be read, and at that place stands what the error is about (`Error.IsAbout`). A session prints the
line that it compiled with marks under exactly these characters (`marks_of_compile`).
-/

namespace Reckon

namespace Token

/-! ## The words of tokens -/

theorem exists_symbol_of_reads {word : List Char} {k : Kind} (h : Reads word k)
    (hk : k.isValue = false) : ∃ c, word = [c] ∧ Kind.ofSymbol? c = some k := by
  cases h with
  | function _ _ => contradiction
  | var _ _ => contradiction
  | number _ _ _ => contradiction
  | symbol hc => exact ⟨_, rfl, hc⟩

/-- The word of a sign, a bracket or an operator is a single character. -/
theorem word_of_symbol {word : List Char} {k : Kind} (h : Reads word k) :
    (k.isSign = true → word = ['+'] ∨ word = ['-']) ∧
      (k = .openBracket → ∃ c ∈ ['(', '{', '['], word = [c]) ∧
      (k = .closeBracket → ∃ c ∈ [')', '}', ']'], word = [c]) ∧
      (k = .times ∨ k = .divide ∨ k = .power → word = k.name.toList) := by
  by_cases hvalue : k.isValue = true
  · cases k <;> first | contradiction | simp [Kind.isSign]
  · obtain ⟨c, rfl, hc⟩ := exists_symbol_of_reads h (Bool.eq_false_iff.mpr hvalue)
    unfold Kind.ofSymbol? at hc
    split at hc
    all_goals first
      | contradiction
      | obtain rfl := Option.some.inj hc
        simp [Kind.isSign, Kind.name]

theorem word_of_function {word : List Char} {name : String} (h : Reads word (.function name)) :
    word = name.toList ∧ Expr.IsName Char.isUpper name := by
  cases h with
  | function hc hrest =>
    exact ⟨String.toList_ofList.symm, _, _, String.toList_ofList, hc, hrest⟩
  | symbol hc =>
    unfold Kind.ofSymbol? at hc
    split at hc <;> simp only [Option.some.injEq, reduceCtorEq] at hc

end Token

/-! ## What errors are about -/

namespace Error

/-- Whether a stretch of a line, with `after` behind it, is what an error is about. -/
def IsAbout (text after : List Char) : Error → Prop
  | lex (.invalidCharacter c _) => text = [c]
  | lex (.malformedNumber number _) => text = number.toList
  | lex (.danglingSign _) => (text = ['+'] ∨ text = ['-']) ∧ after = []
  | group (.unbalancedBrackets _) => ∃ c ∈ ['(', '{', '[', ')', '}', ']'], text = [c]
  | group (.missingArgument name _) => text = name.toList ∧ Expr.IsName Char.isUpper name
  | group (.tooDeep _ _) =>
    (∃ c ∈ ['(', '{', '['], text = [c]) ∨
      ∃ name, text = name.toList ∧ Expr.IsName Char.isUpper name
  | parse (.missingOperand operator _) | parse (.unexpectedToken operator _) =>
    text = operator.toList ∧ operator ∈ ["*", "/", "^"]
  | parse (.tooDeep _) | eval _ => False

/-- Whether an error has a place in a line that shows what it is about. -/
def Shows (line : List Char) (cause : Error) : Prop :=
  ∃ span word after, cause.span? = some span ∧ span.Holds line word after ∧ word ≠ [] ∧
    cause.IsAbout word after

open Token (Reads Spoils)

variable {line word after : List Char} {t : Token}

theorem shows_of_spoils {cause : LexError} (hholds : cause.span.Holds line word after)
    (h : Spoils word cause) : (lex cause).Shows line := by
  refine ⟨cause.span, word, after, rfl, hholds, ?_⟩
  cases h with
  | character _ _ => exact ⟨List.cons_ne_nil _ _, rfl⟩
  | number _ _ _ => exact ⟨List.cons_ne_nil _ _, String.toList_ofList.symm⟩

theorem shows_of_group {cause : GroupError} (hholds : t.span.Holds line word after)
    (hreads : Reads word t.kind) (h : cause.Blames t) : (group cause).Shows line := by
  obtain ⟨-, hopening, hclosing, -⟩ := Token.word_of_symbol hreads
  have hplace : cause.span = t.span := by cases h <;> rfl
  refine ⟨t.span, word, after, congrArg some hplace, hholds, hreads.ne_nil, ?_⟩
  cases h with
  | unclosed hkind =>
    obtain ⟨c, hc, rfl⟩ := hopening hkind
    exact ⟨c, List.mem_append_left [')', '}', ']'] hc, rfl⟩
  | unopened hkind =>
    obtain ⟨c, hc, rfl⟩ := hclosing hkind
    exact ⟨c, List.mem_append_right ['(', '{', '['] hc, rfl⟩
  | argument hkind => exact Token.word_of_function (hkind ▸ hreads)
  | bracket hkind => exact .inl (hopening hkind)
  | call hkind => exact .inr ⟨_, Token.word_of_function (hkind ▸ hreads)⟩

theorem shows_of_parse {cause : ParseError} (hholds : t.span.Holds line word after)
    (hreads : Reads word t.kind) (h : cause.Blames t) : (parse cause).Shows line := by
  have hword := (Token.word_of_symbol hreads).2.2.2
  have hname (hoperator : t.IsOperator) : t.kind.name ∈ ["*", "/", "^"] := by
    rcases hoperator with hkind | hkind | hkind <;> rw [hkind] <;> decide
  cases h with
  | operand hoperator =>
    exact ⟨t.span, word, after, rfl, hholds, hreads.ne_nil, hword hoperator, hname hoperator⟩
  | unexpected hoperator =>
    exact ⟨t.span, word, after, rfl, hholds, hreads.ne_nil, hword hoperator, hname hoperator⟩

end Error

/-- Each error of compiling shows its place in the line, unless the line is only too deep. -/
theorem shows_of_compile {limits : Limits} {line : String} {cause : Error}
    (h : compile limits line = .error cause) :
    cause.Shows line.toList ∨ ∃ limit, cause = .parse (.tooDeep limit) := by
  obtain h | ⟨tokens, htokens, h⟩ := bind_eq_error.mp h
  · obtain ⟨reason, hreason, rfl⟩ := mapError_eq_error.mp h
    left
    rcases holds_of_tokenize_error hreason with ⟨word, after, hholds, hspoils⟩ |
      ⟨word, k, hdangling, hsign, hholds, hreads⟩
    · exact Error.shows_of_spoils hholds hspoils
    · have hword := (Token.word_of_symbol hreads).1 hsign
      refine ⟨reason.span, word, [], rfl, hholds, hreads.ne_nil, ?_⟩
      rw [hdangling]
      exact ⟨hword, rfl⟩
  · have htokens := mapError_eq_ok.mp htokens
    obtain h | ⟨tree, htree, h⟩ := bind_eq_error.mp h
    · obtain ⟨reason, hreason, rfl⟩ := mapError_eq_error.mp h
      obtain ⟨t, ht, hblames⟩ := Tree.exists_blames_of_ofTokens hreason
      obtain ⟨-, word, after, hholds, hreads⟩ := holds_of_tokenize htokens ht
      exact .inl (Error.shows_of_group hholds hreads hblames)
    · have htree := mapError_eq_ok.mp htree
      obtain ⟨reason, hreason, rfl⟩ := mapError_eq_error.mp h
      have hsigns := fun t ht => (holds_of_tokenize (t := t) htokens ht).1
      rcases Expr.exists_blames_of_ofTree htree hsigns hreason with hdeep | ⟨t, ht, hblames⟩
      · right
        cases reason with
        | tooDeep limit => exact ⟨limit, rfl⟩
        | missingOperand _ _ => exact False.elim hdeep
        | unexpectedToken _ _ => exact False.elim hdeep
      · obtain ⟨-, word, after, hholds, hreads⟩ := holds_of_tokenize htokens ht
        exact .inl (Error.shows_of_parse hholds hreads hblames)

/-! ## The marks of a session -/

namespace Reply

/-- Column by column, the marks are under the characters of a span that is not empty. -/
theorem getElem?_marks {span : Span} (h : span.start < span.stop) (column : Nat) :
    (marks span).toList[column]? =
      if column < span.start then some ' '
      else if column < span.stop then some '^'
      else none := by
  have hwidth : max span.stop (span.start + 1) - span.start = span.stop - span.start := by omega
  simp only [marks, hwidth, String.toList_ofList, List.getElem?_append, List.length_replicate,
    List.getElem?_replicate]
  split
  · rfl
  · have hinside : column - span.start < span.stop - span.start ↔ column < span.stop := by omega
    simp only [hinside]

theorem errors_failed {source : String} {cause : Error} {span : Span}
    (h : cause.span? = some span) :
    (failed source cause).errors =
      source ++ "\n" ++ marks span ++ "\n" ++ "error: " ++ cause.message ++ "\n" := by
  unfold errors
  dsimp only
  rw [h]

end Reply

/-- What fails in a session with a place in its text has failed to compile. -/
theorem Session.compile_of_turn_failed {s s' : Session} {typed source : String} {cause : Error}
    {span : Span} (h : s.turn typed = some (some (.failed source cause), s'))
    (hspan : cause.span? = some span) : compile s.env.limits source = .error cause := by
  generalize hreply : some (Reply.failed source cause) = reply at h
  cases effect_of_turn h with
  | blank => cases hreply
  | bound _ _ => cases hreply
  | invalidName _ => cases hreply
  | rejected hcompile _ =>
    obtain ⟨rfl, rfl⟩ := Reply.failed.inj (Option.some.inj hreply)
    exact hcompile
  | @evaluated e _ records =>
    cases hresult : (evaluate (some s.env) e (s.machine.tell records)).1 with
    | ok x => rw [hresult] at hreply; cases hreply
    | error cause' =>
      rw [hresult] at hreply
      obtain ⟨-, rfl⟩ := Reply.failed.inj (Option.some.inj hreply)
      contradiction

/-- An error of compiling lies at a stretch of the line that is what the error is about, and only a
line that is too deep has an error without a place. A session that reports an error with a place
prints what it compiled, with marks in exactly the columns of that stretch. -/
theorem marks_of_compile :
    (∀ limits line cause, compile limits line = .error cause →
      (cause.span? = none ↔ ∃ limit, cause = .parse (.tooDeep limit)) ∧
      ∀ span, cause.span? = some span →
        span.start < span.stop ∧ span.stop ≤ line.length ∧
          cause.IsAbout (span.cut line.toList) (line.toList.drop span.stop)) ∧
    ∀ (s s' : Session) typed source cause span,
      s.turn typed = some (some (.failed source cause), s') → cause.span? = some span →
        compile s.env.limits source = .error cause ∧
        (Reply.failed source cause).errors =
          source ++ "\n" ++ Reply.marks span ++ "\n" ++ "error: " ++ cause.message ++ "\n" ∧
        ∀ column : Nat, (Reply.marks span).toList[column]? =
          if column < span.start then some ' '
          else if column < span.stop then some '^'
          else none := by
  have hplace {limits line cause} (h : compile limits line = .error cause) {span : Span}
      (hspan : cause.span? = some span) : span.start < span.stop ∧ span.stop ≤ line.length ∧
        cause.IsAbout (span.cut line.toList) (line.toList.drop span.stop) := by
    rcases shows_of_compile h with ⟨span', word, after, hspan', hholds, hword, habout⟩ |
      ⟨limit, rfl⟩
    · obtain rfl := Option.some.inj (hspan.symm.trans hspan')
      rw [hholds.cut_eq, hholds.drop_eq, ← String.length_toList]
      exact ⟨hholds.start_lt_stop hword, hholds.stop_le_length, habout⟩
    · contradiction
  refine ⟨fun limits line cause h => ⟨?_, fun span hspan => hplace h hspan⟩, ?_⟩
  · refine ⟨fun hnone => ?_, ?_⟩
    · rcases shows_of_compile h with ⟨span, _, _, hspan, -⟩ | hdeep
      · rw [hnone] at hspan
        contradiction
      · exact hdeep
    · rintro ⟨limit, rfl⟩
      rfl
  · intro s s' typed source cause span hturn hspan
    have hcompile := Session.compile_of_turn_failed hturn hspan
    exact ⟨hcompile, Reply.errors_failed hspan, Reply.getElem?_marks (hplace hcompile hspan).1⟩

/-- A name is to be bound to a line that ends with a function. -/
theorem marks_of_compile_missing_argument :
    let cause : Error := .group (.missingArgument "Cos" ⟨2, 5⟩)
    compile .standard "3-Cos" = .error cause ∧
      cause.IsAbout (Span.cut ⟨2, 5⟩ "3-Cos".toList) ("3-Cos".toList.drop 5) ∧
      ∃ s', (Session.start .standard ⟨0⟩).turn "y = 3-Cos" =
          some (some (.failed "3-Cos" cause), s') ∧
        (Reply.failed "3-Cos" cause).errors =
          "3-Cos" ++ "\n" ++ Reply.marks ⟨2, 5⟩ ++ "\n" ++ "error: " ++ cause.message ++ "\n" := by
  intro cause
  have hcompile : compile .standard "3-Cos" = .error cause := rfl
  obtain ⟨s', hturn⟩ : ∃ s', (Session.start .standard ⟨0⟩).turn "y = 3-Cos" =
      some (some (.failed "3-Cos" cause), s') := ⟨_, rfl⟩
  obtain ⟨-, -, habout⟩ := (marks_of_compile.1 .standard "3-Cos" cause hcompile).2 ⟨2, 5⟩ rfl
  obtain ⟨-, herrors, -⟩ := marks_of_compile.2 _ s' _ _ cause ⟨2, 5⟩ hturn rfl
  exact ⟨hcompile, habout, s', hturn, herrors⟩

end Reckon
