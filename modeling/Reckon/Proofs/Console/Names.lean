import Reckon.Proofs.Console.Bindings
import Reckon.Proofs.Token.Munch
import Reckon.Proofs.Written.Value

/-!
# Reading a binding back

A name can be bound exactly if it is one token by itself, the variable of that name
(`isVariableName_iff_scan`). So it is a line of its own, which compiles to the sum of this variable.
What it is bound to is a sum too, and the total of a sum starts from zero, so it is never negative
zero. Hence the sum of the variable has the very value of the sum that is bound, two nodes further
out (`Rules.value_sum_var`).
-/

namespace Reckon

/-! ## A line of a single lexeme -/

namespace Token

theorem lexemes_of_reads {word : List Char} {k : Kind} (h : Reads word k) :
    lexemes word = [word] := by
  obtain ⟨-, hletters | hnumeral⟩ | ⟨c, rfl, -⟩ := h.letters_or_numeral_or_symbol
  · exact lexemes_of_forall isClass_isAlpha h.ne_nil hletters
  · exact lexemes_of_forall isClass_isNumeralChar h.ne_nil hnumeral
  · rfl

/-- A lexeme that stands alone is the one token of its line. -/
theorem scan_of_reads {line : String} {k : Kind} (h : Reads line.toList k) :
    scan line = .ok [.plain k ⟨0, line.length⟩] := by
  obtain ⟨c, rest, hline⟩ := List.exists_cons_of_ne_nil h.ne_nil
  rw [scan, lexemes_of_reads h, ← String.length_toList]
  rw [hline] at h ⊢
  rw [ofLexemes, ofLexeme_of_reads h, Nat.zero_add]
  rfl

/-- A line of one token is one lexeme. -/
theorem reads_of_scan_singleton {line : String} {t : Token} (h : scan line = .ok [t]) :
    Reads line.toList t.kind := by
  obtain ⟨hreads, -⟩ := forall₂_reads_of_ofLexemes (fun word => ne_nil_of_mem_lexemes)
    (fun word => run_of_mem_lexemes) h
  obtain ⟨word, words, hword, hwords, hline⟩ := List.forall₂_cons_right_iff.mp hreads
  obtain rfl := List.forall₂_nil_right_iff.mp hwords
  have hflatten := flatten_lexemes line.toList
  rw [hline, List.flatten_singleton] at hflatten
  exact hflatten ▸ hword

theorem tokenize_of_reads {line : String} {k : Kind} (h : Reads line.toList k)
    (hk : k.isSign = false) : tokenize line = .ok [.plain k ⟨0, line.length⟩] := by
  refine bind_eq_ok.mpr ⟨_, scan_of_reads h, ?_⟩
  cases k <;> first | rfl | contradiction

end Token

/-! ## Names of variables -/

/-- A name can be bound exactly if it is a lexeme that is read as a variable. -/
theorem isVariableName_iff_reads {word : List Char} :
    isVariableName word = true ↔ Token.Reads word (.var (String.ofList word)) := by
  constructor
  · intro h
    cases word with
    | nil => contradiction
    | cons c rest =>
      obtain ⟨hlower, hrest⟩ := Bool.and_eq_true_iff.mp h
      exact .var hlower (List.all_eq_true.mp hrest)
  · intro h
    generalize hk : Token.Kind.var (String.ofList word) = k at h
    cases h with
    | var hlower hrest => exact Bool.and_eq_true_iff.mpr ⟨hlower, List.all_eq_true.mpr hrest⟩
    | function _ _ => contradiction
    | number _ _ _ => contradiction
    | symbol hsymbol =>
      subst hk
      unfold Token.Kind.ofSymbol? at hsymbol
      split at hsymbol <;> contradiction

theorem isVariableName_iff_scan {name : String} :
    isVariableName name.toList = true ↔
      ∃ t, Token.scan name = .ok [t] ∧ t.kind = .var name ∧ t.span = ⟨0, name.length⟩ := by
  rw [isVariableName_iff_reads, String.ofList_toList]
  constructor
  · intro h
    exact ⟨_, Token.scan_of_reads h, rfl, rfl⟩
  · rintro ⟨t, hscan, hkind, -⟩
    exact hkind ▸ Token.reads_of_scan_singleton hscan

/-- Whatever the limits, a name is the sum of its variable. -/
theorem compile_of_isVariableName (limits : Limits) {name : String}
    (h : isVariableName name.toList = true) :
    compile limits name = .ok (.sum [.var name .positive] .positive) := by
  rw [isVariableName_iff_reads, String.ofList_toList] at h
  exact compile_eq_ok.mpr ⟨_, _, Token.tokenize_of_reads h rfl, rfl, rfl⟩

/-! ## The value of a name -/

/-- A total that is not negative zero stays so, whatever is added to it. -/
theorem ne_neg_zero_of_foldValues {below : Expr → Except EvalError Float} {es : List Expr}
    {start x : Float} (h : foldValues (· + ·) start below es = .ok x) (hstart : start ≠ -0) :
    x ≠ -0 := by
  induction es generalizing start with
  | nil => exact Except.ok.inj h ▸ hstart
  | cons e es ih =>
    rw [foldValues, List.foldlM_cons] at h
    obtain ⟨total, htotal, hrest⟩ := bind_eq_ok.mp h
    obtain ⟨y, -, hy⟩ := bind_eq_ok.mp htotal
    exact ih hrest (Except.ok.inj hy ▸ Decimal.add_ne_neg_zero hstart y)

namespace Rules

variable (rules : Rules) {terms : List Expr} {name : String}

/-- The value of a sum without a sign has no negative zero to lose. -/
theorem unsignedZero_value_sum (fuel : Nat) :
    Decimal.unsignedZero <$> rules.value fuel (.sum terms .positive) =
      rules.value fuel (.sum terms .positive) := by
  cases fuel with
  | zero => rfl
  | succ fuel =>
    change Decimal.unsignedZero <$> (foldValues _ _ (rules.value fuel) terms >>= Except.ok) =
      (foldValues _ _ (rules.value fuel) terms >>= Except.ok)
    cases htotal : foldValues (· + ·) 0 (rules.value fuel) terms with
    | error cause => rfl
    | ok x =>
      have hne := ne_neg_zero_of_foldValues htotal Decimal.zero_ne_neg_zero
      exact congrArg Except.ok (Decimal.unsignedZero_of_ne hne)

/-- Two more nodes are opened to read a sum through a variable that is bound to it. -/
theorem value_sum_var (hbound : rules.bound name = .ok (.sum terms .positive)) (fuel : Nat) :
    rules.value (fuel + 2) (.sum [.var name .positive] .positive) =
      rules.value fuel (.sum terms .positive) := by
  have hvar : rules.value (fuel + 1) (.var name .positive) =
      rules.value fuel (.sum terms .positive) := by
    change (rules.bound name >>= fun e => rules.value fuel e >>= Except.ok) = _
    rw [hbound]
    exact bind_pure (rules.value fuel (.sum terms .positive))
  -- adding to zero changes nothing but negative zero, and a sum does not come to that
  rw [value_sum_singleton, hvar]
  exact rules.unsignedZero_value_sum fuel

theorem sum_var_alike (hbound : rules.bound name = .ok (.sum terms .positive))
    (fuel fuel' : Nat) :
    Alike EvalError.IsTooDeep Eq (rules.value fuel (.sum [.var name .positive] .positive))
      (rules.value fuel' (.sum terms .positive)) :=
  match fuel with
  | 0 | 1 => .left trivial _
  | fuel + 2 => by
    rw [rules.value_sum_var hbound]
    exact rules.value_alike fuel fuel' _

end Rules

/-! ## Lines that compile -/

section Lines

variable {limits : Limits} {line : String} {e : Expr}

theorem allowed_of_compile (h : compile limits line = .ok e) : ∀ c ∈ line.toList, Allowed c := by
  obtain ⟨tokens, -, htokens, -, -⟩ := compile_eq_ok.mp h
  obtain ⟨scanned, hscan, -⟩ := bind_eq_ok.mp htokens
  exact (Token.exists_scan_iff.mp ⟨scanned, hscan⟩).1

theorem not_allowed_of_isBlank {c : Char} (h : Text.isBlank c = true) : ¬Allowed c := by
  intro hallowed
  have hsmall := Token.toNat_lt_of_allowed hallowed
  have hcode : c.toNat ≤ 32 := by
    simp only [Text.isBlank, Bool.or_eq_true, Bool.and_eq_true, decide_eq_true_eq,
      beq_iff_eq] at h
    omega
  have hval : c.toNat = c.val.toNat := rfl
  rcases hallowed with halpha | hdigit | hmem
  · rw [isAlpha_iff, isUpper_iff, isLower_iff] at halpha
    omega
  · rw [isDigit_iff] at hdigit
    omega
  · revert hcode
    simp only [List.mem_cons, List.not_mem_nil, or_false] at hmem
    rcases hmem with rfl | rfl | rfl | rfl | rfl | rfl | rfl | rfl | rfl | rfl | rfl | rfl <;>
      decide

theorem dropWhile_of_not_isBlank {cs : List Char} (h : ∀ c ∈ cs, Text.isBlank c = false) :
    cs.dropWhile Text.isBlank = cs := by
  rw [List.dropWhile_eq_self_iff]
  intro hpos
  rw [h _ (List.getElem_mem hpos)]
  exact Bool.false_ne_true

theorem trim_of_compile (h : compile limits line = .ok e) : Text.trim line = line := by
  have hblank : ∀ c ∈ line.toList, Text.isBlank c = false := fun c hc =>
    Bool.eq_false_iff.mpr fun hblank => not_allowed_of_isBlank hblank (allowed_of_compile h c hc)
  have hback : ∀ c ∈ line.toList.reverse, Text.isBlank c = false := fun c hc =>
    hblank c (List.mem_reverse.mp hc)
  rw [Text.trim, Text.trimChars, dropWhile_of_not_isBlank hblank, dropWhile_of_not_isBlank hback,
    List.reverse_reverse, String.ofList_toList]

end Lines

namespace Session

variable {s s' : Session} {line typed name : String} {e : Expr} {limits : Limits}

/-- A line that compiles is evaluated: it has no `=`. -/
theorem execute_of_compile (h : compile s.env.limits line = .ok e) :
    s.execute line = s.calculate line := by
  have hequals : '=' ∉ line.toList := fun hmem =>
    Token.not_allowed_of_isSymbol (by decide) rfl (allowed_of_compile h '=' hmem)
  have hline : line.toList.dropWhile (· != '=') = [] :=
    List.dropWhile_eq_nil_iff.mpr fun c hc => bne_iff_ne.mpr fun heq => hequals (heq ▸ hc)
  rw [execute, hline]

/-- The reply to a line that compiles is the value of what it compiles to. -/
theorem execute_eq_answer {function? : String → Option (Float → Float)}
    (h : compile s.env.limits line = .ok e) (hfunctions : s.env.HasFunctions function? e) :
    (s.execute line).1 = answer line
      ((s.env.rules function?).value (s.env.limits.maxEvalDepth - s.machine.openNodes) e) := by
  rw [execute_of_compile h, calculate_of_ok h]
  exact congrArg (answer line) (evaluate_eq_value hfunctions _)

/-- A line that compiles is carried out as it is typed, unless it is empty or ends the session. -/
theorem turn_of_compile (h : compile s.env.limits line = .ok e) (hends : ends line = false)
    (hempty : line.isEmpty = false) :
    s.turn line = some (some (s.execute line).1, (s.execute line).2) := by
  rw [turn, trim_of_compile h, hends, hempty]
  rfl

/-- What stands behind the first `=` of a line. -/
def definition (typed : String) : String :=
  String.ofList (Text.trimChars ((Text.trim typed).toList.dropWhile (· != '=')).tail)

/-- A line is said to bind a name only when it does. -/
theorem binds_of_turn (h : s.turn typed = some (some (.bound name e), s')) :
    Binds s.env.limits typed name e ∧ s'.env = s.env.bind name e := by
  generalize hreply : some (Reply.bound name e) = reply at h
  cases effect_of_turn h with
  | blank => cases hreply
  | bound hbinds _ =>
    obtain ⟨rfl, rfl⟩ := Reply.bound.inj (Option.some.inj hreply)
    exact ⟨hbinds, rfl⟩
  | invalidName _ => cases hreply
  | rejected _ _ => cases hreply
  | @evaluated e' _ records =>
    cases hresult : (evaluate (some s.env) e' (s.machine.tell records)).1 with
    | ok x => rw [hresult] at hreply; cases hreply
    | error cause => rw [hresult] at hreply; cases hreply

theorem Binds.isVariableName (h : Binds limits typed name e) :
    isVariableName name.toList = true := by
  obtain ⟨_, _, _, _, _, hname, _⟩ := h
  exact hname

/-- What a line binds is what stands behind its first `=`. -/
theorem compile_definition (h : Binds limits typed name e) :
    compile limits (definition typed) = .ok e := by
  obtain ⟨left, right, hline, hleft, -, -, hcompile⟩ := h
  rw [definition, hline, (cut_append_equals right hleft).2]
  exact hcompile

/-- A reply that does not report too many open nodes is that of an outcome that is no such error. -/
theorem ne_error_of_answer {x : Except EvalError Float}
    (h : ∀ limit, answer line x ≠ .failed line (.eval (.tooDeep limit))) (cause : EvalError)
    (hcause : cause.IsTooDeep) : x ≠ .error cause := by
  rintro rfl
  cases cause with
  | tooDeep limit => exact h limit rfl
  | _ => exact hcause

/-- The name of what a line compiles to gets the reply that the line gets, if neither of them goes
too deep. -/
theorem exists_answer_of_lookup? {function? : String → Option (Float → Float)} {source : String}
    (hname : isVariableName name.toList = true) (hsource : compile s.env.limits source = .ok e)
    (hbound : s.env.lookup? name = some e) (hfunctions : s.env.HasFunctions function? e)
    (hdeep : ∀ line ∈ [name, source], ∀ limit,
      (s.execute line).1 ≠ .failed line (.eval (.tooDeep limit))) :
    ∃ result, ∀ line ∈ [name, source], (s.execute line).1 = answer line result := by
  obtain ⟨terms, rfl⟩ := exists_sum_of_compile hsource
  have hvar : s.env.HasFunctions function? (.var name .positive) :=
    .var (fun e he => Option.some.inj (hbound.symm.trans he) ▸ hfunctions) .positive
  have hread := execute_eq_answer (compile_of_isVariableName s.env.limits hname)
    (.sum (List.forall_mem_singleton.mpr hvar) .positive)
  have hwritten := execute_eq_answer hsource hfunctions
  have halike := (s.env.rules function?).sum_var_alike (boundTo_eq_ok.mpr hbound)
    (s.env.limits.maxEvalDepth - s.machine.openNodes)
    (s.env.limits.maxEvalDepth - s.machine.openNodes)
  rw [List.forall_mem_cons, List.forall_mem_singleton, hread, hwritten] at hdeep
  rw [halike.eq_of_not (ne_error_of_answer hdeep.1) (ne_error_of_answer hdeep.2)] at hread
  exact ⟨_, List.forall_mem_cons.mpr ⟨hread, List.forall_mem_singleton.mpr hwritten⟩⟩

/-- The names that can be bound are those that are one token by themselves, a variable. Right after
a line has bound a name to something that draws no random numbers, the name and what stands behind
the `=` get replies with the same result, an error or a number, if neither of them goes too deep.
This holds even if what is bound comes back to the name. Both can be typed at the prompt as well,
unless they are empty or end the session. -/
theorem names_read_back (limits : Limits) (source : Source) :
    (∀ name : String, isVariableName name.toList = true ↔
      ∃ t, Token.scan name = .ok [t] ∧ t.kind = .var name ∧ t.span = ⟨0, name.length⟩) ∧
    ∀ (before : List String) (typed name : String) (e : Expr) (s : Session),
      ((start limits source).run before).2.turn typed = some (some (.bound name e), s) →
      (∀ argument sign, ¬s.env.Reaches e (.call "Rand" argument sign)) →
      (∀ line ∈ [name, definition typed], ∀ limit,
        (s.execute line).1 ≠ .failed line (.eval (.tooDeep limit))) →
      ∃ result, ∀ line ∈ [name, definition typed], (s.execute line).1 = answer line result ∧
        (ends line = false → line.isEmpty = false →
          ∃ s', s.turn line = some (some (answer line result), s')) := by
  refine ⟨fun name => isVariableName_iff_scan, fun before typed name e s hturn hrand hdeep => ?_⟩
  have hsound := ((Sound.start limits source).run before).turn hturn
  obtain ⟨hbinds, henv⟩ := binds_of_turn hturn
  have hlimits : s.env.limits = ((start limits source).run before).2.env.limits := by
    rw [henv, EnvOf.limits_bind]
  rw [← hlimits] at hbinds
  have hname := hbinds.isVariableName
  have hsource := compile_definition hbinds
  have hbound : s.env.lookup? name = some e := by rw [henv, EnvOf.lookup?_bind, if_pos rfl]
  obtain ⟨result, hresult⟩ := exists_answer_of_lookup? hname hsource hbound
    (EnvOf.hasFunctions_builtins hsound.function_eq hrand) hdeep
  have hcompile : ∀ line ∈ [name, definition typed], ∃ e, compile s.env.limits line = .ok e :=
    List.forall_mem_cons.mpr
      ⟨⟨_, compile_of_isVariableName _ hname⟩, List.forall_mem_singleton.mpr ⟨_, hsource⟩⟩
  refine ⟨result, fun line hline => ⟨hresult line hline, fun hends hempty => ?_⟩⟩
  obtain ⟨e', he'⟩ := hcompile line hline
  rw [turn_of_compile he' hends hempty, hresult line hline]
  exact ⟨_, rfl⟩

/-- A product that is negative zero by itself, bound by a line with blanks. -/
theorem names_read_back_zero :
    let before := ["y=3"]
    let typed := " x = -0*y "
    let e : Expr :=
      .sum [.product [.literal 0 .negative, .var "y" .positive] .positive] .positive
    let s := ((start ⟨8, 20⟩ ⟨0⟩).run (before ++ [typed])).2
    (∃ t, Token.scan "x" = .ok [t] ∧ t.kind = .var "x" ∧ t.span = ⟨0, 1⟩) ∧
      ((start ⟨8, 20⟩ ⟨0⟩).run before).2.turn typed = some (some (.bound "x" e), s) ∧
      (∀ argument sign, ¬s.env.Reaches e (.call "Rand" argument sign)) ∧
      (∀ line ∈ ["x", definition typed], (s.execute line).1.output = " 0.0\n") ∧
      ∃ result, ∀ line ∈ ["x", definition typed], (s.execute line).1 = answer line result ∧
        ∃ s', s.turn line = some (some (answer line result), s') := by
  intro before typed e s
  let three : Expr := .sum [.literal 3 .positive] .positive
  have hthree : Binds ⟨8, 20⟩ "y=3" "y" three := by
    refine ⟨['y'], ['3'], by decide +kernel, by decide, by decide +kernel, by decide, ?_⟩
    exact compile_eq_ok.mpr ⟨[.plain (.number 3) ⟨0, 1⟩], _, by decide +kernel, rfl, rfl⟩
  have hzero : Binds ⟨8, 20⟩ typed "x" e := by
    refine ⟨['x', ' '], [' ', '-', '0', '*', 'y'], by decide +kernel, by decide,
      by decide +kernel, by decide, ?_⟩
    exact compile_eq_ok.mpr ⟨[⟨.number 0, .negative, true, ⟨1, 2⟩⟩, .plain .times ⟨2, 3⟩,
      .plain (.var "y") ⟨3, 4⟩], _, by decide +kernel, rfl, rfl⟩
  obtain ⟨records, hfirst⟩ := turn_of_binds (s := start ⟨8, 20⟩ ⟨0⟩) hthree
  obtain ⟨records', hsecond⟩ := turn_of_binds (s := ⟨(start ⟨8, 20⟩ ⟨0⟩).env.bind "y" three,
    (start ⟨8, 20⟩ ⟨0⟩).machine.tell records⟩) hzero
  have hturn : ((start ⟨8, 20⟩ ⟨0⟩).run before).2.turn typed = some (some (.bound "x" e), s) := by
    dsimp only [s, before]
    rw [List.singleton_append, run_cons_of_turn hfirst, run_cons_of_turn hfirst,
      run_cons_of_turn hsecond]
    exact hsecond
  have henv : s.env = ((start ⟨8, 20⟩ ⟨0⟩).env.bind "y" three).bind "x" e := by
    dsimp only [s, before]
    rw [List.singleton_append, run_cons_of_turn hfirst, run_cons_of_turn hsecond]
    rfl
  let reached : List Expr := [e, .product [.literal 0 .negative, .var "y" .positive] .positive,
    .literal 0 .negative, .var "y" .positive, three, .literal 3 .positive]
  have hreach : ∀ e', s.env.Reaches e e' → e' ∈ reached := by
    refine fun e' h => h.of_closed ?_ (fun name sign e' he hname => ?_) List.mem_cons_self
    · simp [reached, e, three, Expr.children]
    · obtain ⟨rfl, -⟩ : name = "y" ∧ sign = .positive := by simpa [reached, e, three] using he
      simp [henv, three] at hname
      simp [← hname, reached, three]
  have hrand : ∀ argument sign, ¬s.env.Reaches e (.call "Rand" argument sign) := by
    intro argument sign h
    simpa [reached, e, three] using hreach _ h
  have houtput : ∀ line ∈ ["x", definition typed], (s.execute line).1.output = " 0.0\n" := by
    decide +kernel
  have hdeep : ∀ line ∈ ["x", definition typed], ∀ limit,
      (s.execute line).1 ≠ .failed line (.eval (.tooDeep limit)) := by
    intro line hline limit hfailed
    have htext : "" = " 0.0\n" := by
      rw [← houtput line hline, hfailed]
      rfl
    exact absurd htext (by decide)
  have hprompt : ∀ line ∈ ["x", definition typed], ends line = false ∧ line.isEmpty = false := by
    decide +kernel
  obtain ⟨hnames, hback⟩ := names_read_back ⟨8, 20⟩ ⟨0⟩
  obtain ⟨result, hresult⟩ := hback before typed "x" e s hturn hrand hdeep
  have hscan := (hnames "x").mp (by decide)
  refine ⟨hscan, hturn, hrand, houtput, result, fun line hline => ?_⟩
  obtain ⟨hanswer, hprompts⟩ := hresult line hline
  exact ⟨hanswer, hprompts (hprompt line hline).1 (hprompt line hline).2⟩

end Session

end Reckon
