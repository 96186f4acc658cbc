import Reckon.Console.Session
import Reckon.Proofs.Eval.Inline
import Reckon.Proofs.Grammar.Compile
import Reckon.Proofs.Token.Lexemes

/-!
# Definitions in place of names in a line

When each variable of a given name is replaced by a definition in brackets (`Line.inline`), the line
compiles to the expression in which the sum of the definition stands in place of the variable, and
as long as the name is bound to the definition both lines have the same value
(`compile_inline`).
-/

namespace Reckon

namespace Line

/-- A line with a definition in brackets in place of each word that is a given name. -/
def inline (name definition line : String) : String :=
  String.ofList <| (lexemes line.toList).flatMap fun word =>
    if word = name.toList then '(' :: (definition.toList ++ [')']) else word

end Line

/-! ## Lexemes -/

/-- The words of different lexemes do not go on in one another. -/
theorem lexemes_apart (line : List Char) :
    (lexemes line).IsChain fun word next =>
      ∀ c ∈ word.getLast?, ∀ d ∈ next.head?, sameRun c d = false := by
  refine (List.isChain_getLast_head_splitBy sameRun line).imp ?_
  rintro word next ⟨hword, hnext, h⟩ c hc d hd
  rw [List.getLast?_eq_some_getLast hword] at hc
  rw [List.head?_eq_some_head hnext] at hd
  obtain rfl := Option.some.inj hc
  obtain rfl := Option.some.inj hd
  exact h

theorem lexemes_eq_singleton {word : List Char} (hne : word ≠ [])
    (hrun : word.IsChain fun c d => sameRun c d = true) : lexemes word = [word] :=
  List.splitBy_of_isChain hne hrun

/-- Brackets keep what stands between them apart from all other words. -/
theorem lexemes_flatMap (name definition : List Char) {words : List (List Char)}
    (hne : ∀ word ∈ words, word ≠ [])
    (hruns : ∀ word ∈ words, word.IsChain fun c d => sameRun c d = true)
    (hapart : words.IsChain fun word next =>
      ∀ c ∈ word.getLast?, ∀ d ∈ next.head?, sameRun c d = false) :
    lexemes (words.flatMap fun word =>
        if word = name then '(' :: (definition ++ [')']) else word) =
      words.flatMap fun word =>
        if word = name then ['('] :: (lexemes definition ++ [[')']]) else [word] := by
  induction words with
  | nil => rfl
  | cons word words ih =>
    rw [List.forall_mem_cons] at hne hruns
    obtain ⟨hnext, hapart⟩ := List.isChain_cons.mp hapart
    have hrest := ih hne.2 hruns.2 hapart
    rw [List.flatMap_cons, List.flatMap_cons]
    split
    · have hopen (after : List Char) : lexemes ('(' :: after) = ['('] :: lexemes after :=
        lexemes_append_symbol [] after (by decide)
      rw [List.cons_append, hopen, List.append_assoc, List.singleton_append,
        lexemes_append_symbol _ _ (by decide), hrest]
      simp
    · rw [lexemes_append, hrest, lexemes_eq_singleton hne.1 hruns.1]
      intro c hc d hd
      cases words with
      | nil => contradiction
      | cons next words =>
        rw [List.flatMap_cons] at hd
        split at hd
        · obtain rfl := Option.some.inj hd
          exact sameRun_of_isSymbol_right (by decide) c
        · refine hnext next rfl c hc d ?_
          obtain ⟨x, rest, rfl⟩ := List.exists_cons_of_ne_nil (hne.2 next List.mem_cons_self)
          exact hd

namespace Token

/-! ## Kinds -/

/-- Kinds with those of a bracketed definition in place of variables of a given name. -/
def Kind.inline (name : String) (definition : List Kind) (kinds : List Kind) : List Kind :=
  kinds.flatMap fun k =>
    if k = .var name then .openBracket :: (definition ++ [.closeBracket]) else [k]

variable {name : String} {k : Kind} {kinds definition : List Kind}

/-- A word is the name of a variable exactly if it is read as this variable. -/
theorem eq_name_iff (hname : isVariableName name.toList = true) {word : List Char}
    (h : Reads word k) : word = name.toList ↔ k = .var name := by
  cases h with
  | @function c rest hupper _ =>
    simp only [reduceCtorEq, iff_false]
    intro heq
    rw [← heq, isVariableName, Bool.and_eq_true] at hname
    rw [not_isUpper_of_isLower hname.1] at hupper
    contradiction
  | @var c rest _ _ =>
    rw [Kind.var.injEq]
    refine ⟨fun heq => ?_, ?_⟩
    · rw [heq, String.ofList_toList]
    · rintro rfl
      rw [String.toList_ofList]
  | @number c rest x hnumeral _ _ =>
    simp only [reduceCtorEq, iff_false]
    intro heq
    rw [← heq, isVariableName, Bool.and_eq_true] at hname
    have hcase := isAlpha_eq_false.mp (not_isAlpha_of_isNumeralChar hnumeral)
    rw [hcase.2] at hname
    exact Bool.false_ne_true hname.1
  | @symbol c k hk =>
    have hcase := isAlpha_eq_false.mp (isSymbol_of_ofSymbol? hk).1
    refine ⟨fun heq => ?_, ?_⟩
    · rw [← heq, isVariableName, Bool.and_eq_true, hcase.2] at hname
      exact absurd hname.1 Bool.false_ne_true
    · rintro rfl
      unfold Kind.ofSymbol? at hk
      split at hk <;> simp only [Option.some.injEq, reduceCtorEq] at hk

theorem reads_inline (hname : isVariableName name.toList = true) {words words' : List (List Char)}
    (h : List.Forall₂ Reads words kinds) (h' : List.Forall₂ Reads words' definition) :
    List.Forall₂ Reads
      (words.flatMap fun word =>
        if word = name.toList then ['('] :: (words' ++ [[')']]) else [word])
      (Kind.inline name definition kinds) := by
  have hinside : List.Forall₂ Reads (['('] :: (words' ++ [[')']]))
      (.openBracket :: (definition ++ [.closeBracket])) :=
    .cons (.symbol rfl) (List.rel_append h' (.cons (.symbol rfl) .nil))
  induction h with
  | nil => exact .nil
  | @cons word k words kinds hword _ ih =>
    rw [Kind.inline, List.flatMap_cons, List.flatMap_cons]
    refine List.rel_append ?_ ih
    by_cases heq : word = name.toList
    · rw [if_pos heq, if_pos ((eq_name_iff hname hword).mp heq)]
      exact hinside
    · rw [if_neg heq, if_neg fun hk => heq ((eq_name_iff hname hword).mpr hk)]
      exact .cons hword .nil

theorem isSign_getLast?_inline (h : ∀ k ∈ kinds.getLast?, k.isSign = false) :
    ∀ k ∈ (Kind.inline name definition kinds).getLast?, k.isSign = false := by
  intro k hk
  rcases List.eq_nil_or_concat kinds with rfl | ⟨init, last, rfl⟩
  · contradiction
  · rw [List.concat_eq_append] at h hk
    rw [Kind.inline, List.flatMap_append, List.flatMap_singleton, List.getLast?_append] at hk
    split at hk
    · rw [← List.cons_append, List.getLast?_append] at hk
      obtain rfl := Option.some.inj hk
      rfl
    · obtain rfl := Option.some.inj hk
      exact h last (by simp)

/-! ## Tokens -/

namespace Marked

variable {before : Option Kind} {tokens tokens' : List Token}

theorem ne_minus_of_not_sign (h : before.any Kind.isSign = false) : before ≠ some .minus := by
  rintro rfl
  contradiction

/-- Of what comes before, only signs make a difference. -/
theorem of_not_sign {before' : Option Kind} (h : Marked before kinds tokens)
    (hbefore : before.any Kind.isSign = false) (hbefore' : before'.any Kind.isSign = false) :
    Marked before' kinds tokens := by
  cases h with
  | nil => exact .nil
  | sign hk rest => exact .sign hk rest
  | token hk hkind hsign hmark rest =>
    refine .token hk hkind ?_ (hmark.trans (hbefore.trans hbefore'.symm)) rest
    rw [hsign, if_neg (ne_minus_of_not_sign hbefore), if_neg (ne_minus_of_not_sign hbefore')]

/-- What marking leaves of the same kinds is the same, up to the places. -/
theorem inlined_none (h : Marked before kinds tokens) (h' : Marked before kinds tokens') :
    Inlined (fun _ => none) tokens tokens' := by
  induction h generalizing tokens' with
  | nil =>
    rw [h'.eq_nil]
    exact .nil
  | sign hk _ ih => exact ih (h'.of_sign hk)
  | token hk hkind hsign hmark _ ih =>
    obtain ⟨t', ts', rfl, hkind', hsign', hmark', hrest'⟩ := h'.of_token hk
    exact .token (hkind'.trans hkind.symm) (hsign'.trans hsign.symm) (hmark'.trans hmark.symm)
      (fun _ _ => rfl) (ih hrest')

/-- With the kinds of a bracketed definition in place of variables, the tokens of the definition
are in place of the variables. -/
theorem inlined {terms : List Expr}
    (hdefinition : ∀ inner, Marked none definition inner →
      ∃ level : Grammar.Sum inner, level.exprs = terms)
    (h : Marked before kinds tokens)
    (h' : Marked before (Kind.inline name definition kinds) tokens') :
    Inlined (Expr.definitionOf name terms) tokens tokens' := by
  induction h generalizing tokens' with
  | nil =>
    rw [h'.eq_nil]
    exact .nil
  | @sign before k ks ts hk _ ih =>
    have hvar : k ≠ .var name := by
      rintro rfl
      contradiction
    rw [Kind.inline, List.flatMap_cons, if_neg hvar] at h'
    exact ih (h'.of_sign hk)
  | @token before k ks t ts hk hkind hsign hmark hrest ih =>
    rw [Kind.inline, List.flatMap_cons] at h'
    by_cases hvar : k = .var name
    · rw [if_pos hvar, List.cons_append, List.append_assoc, List.singleton_append] at h'
      obtain ⟨o, behind, rfl, hopen, hsign', hmark', hbehind⟩ := h'.of_token rfl
      obtain ⟨inner, last, before', rfl, hinner, hlast⟩ := hbehind.of_append
      obtain ⟨c, ts', rfl, hclose, -, -, hrest'⟩ := hlast.of_token rfl
      have hlevel := hdefinition inner (hinner.of_not_sign rfl rfl)
      have hrest' := ih (hrest'.of_not_sign rfl hk)
      exact .definition (hkind.trans hvar) (if_pos rfl) hopen (hsign'.trans hsign.symm)
        (hmark'.trans hmark.symm) hlevel hclose hrest'
    · rw [if_neg hvar] at h'
      obtain ⟨t', ts', rfl, hkind', hsign', hmark', hrest'⟩ := h'.of_token hk
      refine .token (hkind'.trans hkind.symm) (hsign'.trans hsign.symm) (hmark'.trans hmark.symm)
        (fun other hother => if_neg ?_) (ih hrest')
      rintro rfl
      exact hvar (hkind.symm.trans hother)

end Marked

end Token

open Token (Kind Reads Marked)

/-! ## Compiling and evaluating -/

theorem Token.Inlined.length_le {definition? : String → Option (List Expr)}
    {ts ts' : List Token} (h : Inlined definition? ts ts') : ts.length ≤ ts'.length := by
  induction h with
  | nil => exact Nat.le_refl 0
  | token _ _ _ _ _ ih => exact Nat.succ_le_succ ih
  | definition _ _ _ _ _ _ _ _ ih =>
    simp only [List.length_cons, List.length_append]
    omega

/-- The line with definitions has tokens, and they are those of the line with the tokens of the
definition in place of the variables. -/
theorem exists_tokenize_inline {limits : Limits} {line definition name : String}
    {tokens : List Token} {terms : List Expr} (hname : isVariableName name.toList = true)
    (htokens : tokenize line = .ok tokens)
    (hdefinition : compile limits definition = .ok (.sum terms .positive)) :
    ∃ tokens', tokenize (Line.inline name definition line) = .ok tokens' ∧
      Token.Inlined (Expr.definitionOf name terms) tokens tokens' := by
  obtain ⟨kinds, hreads, hlast, hmarked⟩ := exists_kinds_of_tokenize htokens
  obtain ⟨inside, hinside, level, hlevel⟩ := exists_derivation_of_compile hdefinition
  obtain ⟨kinds', hreads', -, hmarked'⟩ := exists_kinds_of_tokenize hinside
  have hterms : level.exprs = terms := (Expr.sum.inj hlevel).1
  have hwords := lexemes_flatMap name.toList definition.toList
    (fun word => ne_nil_of_mem_lexemes) (fun word => run_of_mem_lexemes)
    (lexemes_apart line.toList)
  have hinline := Token.reads_inline hname hreads hreads'
  rw [← hwords] at hinline
  obtain ⟨tokens', htokens', hmarked''⟩ :=
    exists_tokenize_of_kinds hinline (Token.isSign_getLast?_inline hlast)
  refine ⟨tokens', htokens', hmarked.inlined (fun inner hinner => ?_) hmarked''⟩
  -- the tokens of the definition have other places inside the line
  obtain ⟨level', hexprs⟩ := level.exists_inlined (hmarked'.inlined_none hinner)
  exact ⟨level', by rw [hexprs, Expr.inlinedAll_none, hterms]⟩

/-- Replacing a variable by a definition in brackets replaces it by the sum of the definition. As
soon as the nesting limit reaches the length of the line, it compiles to the expression with these
sums, and where the name is bound to the definition the two expressions have the same value or fail
for the same cause, as long as neither goes too deep. -/
theorem compile_inline {limits limits' : Limits} {line definition name : String} {e : Expr}
    {terms : List Expr} (hname : isVariableName name.toList = true)
    (hline : compile limits line = .ok e)
    (hdefinition : compile limits' definition = .ok (.sum terms .positive)) :
    (∀ large : Limits, (Line.inline name definition line).length ≤ large.maxDepth →
      large.maxDepth ≤ Limits.ceiling →
      compile large line = .ok e ∧
      compile large (Line.inline name definition line) =
        .ok (e.inlined (Expr.definitionOf name terms))) ∧
    ∀ (env : Env) (function? : String → Option (Float → Float)) (m : Machine),
      env.lookup? name = some (.sum terms .positive) → env.HasFunctions function? e →
      (∀ cause : EvalError, cause.IsTooDeep → (evaluate (some env) e m).1 ≠ .error cause) →
      (∀ cause : EvalError, cause.IsTooDeep →
        (evaluate (some env) (e.inlined (Expr.definitionOf name terms)) m).1 ≠ .error cause) →
      (evaluate (some env) (e.inlined (Expr.definitionOf name terms)) m).1 =
        (evaluate (some env) e m).1 := by
  refine ⟨fun large hlength hword => ?_, fun env function? m hbound hfunctions hline hinline => ?_⟩
  · obtain ⟨tokens, htokens, d, rfl⟩ := exists_derivation_of_compile hline
    obtain ⟨tokens', htokens', hinlined⟩ := exists_tokenize_inline hname htokens hdefinition
    obtain ⟨d', hd'⟩ := d.exists_inlined hinlined
    have hdepth' := Nat.le_trans (length_tokenize_le htokens') hlength
    have hdepth := Nat.le_trans hinlined.length_le hdepth'
    refine ⟨compile_of_derivation htokens hdepth (Nat.le_trans hdepth hword) d, ?_⟩
    have hexpr : d'.expr = d.expr.inlined (Expr.definitionOf name terms) := by
      rw [Grammar.Sum.expr, hd']
      rfl
    rw [← hexpr]
    exact compile_of_derivation htokens' hdepth' (Nat.le_trans hdepth' hword) d'
  · refine (evaluate_inlined (fun other terms' hterms => ?_) hfunctions m).eq_of_not hinline hline
    obtain ⟨rfl, rfl⟩ := Expr.definitionOf_eq_some.mp hterms
    exact hbound

/-- The variable is an operand of a power and, with a sign before it, the argument of a function. -/
theorem compile_inline_power :
    let e : Expr := .sum [.product [.power [.var "x" .positive,
      .call "Abs" (.var "x" .negative) .negative] .positive] .positive] .positive
    let e' : Expr := .sum [.product [.power [.sum [.var "y" .negative] .positive,
      .call "Abs" (.sum [.var "y" .negative] .negative) .negative] .positive] .positive] .positive
    let env := ((Env.builtins .standard).bind "x" (.sum [.var "y" .negative] .positive)).bind "y"
      (.literal 2 .positive)
    isVariableName "x".toList = true ∧ compile .standard "x^-Abs-x" = .ok e ∧
      compile .standard "-y" = .ok (.sum [.var "y" .negative] .positive) ∧
      Line.inline "x" "-y" "x^-Abs-x" = "(-y)^-Abs-(-y)" ∧
      compile .standard "(-y)^-Abs-(-y)" = .ok e' ∧
      (evaluate (some env) e (.start ⟨0⟩)).1.toBool = true ∧
      (evaluate (some env) e' (.start ⟨0⟩)).1 = (evaluate (some env) e (.start ⟨0⟩)).1 := by
  intro e e' env
  have hname : isVariableName "x".toList = true := by decide +kernel
  have hline : compile .standard "x^-Abs-x" = .ok e := by
    simp only [e]
    cbv
  have hdefinition : compile .standard "-y" = .ok (.sum [.var "y" .negative] .positive) := by cbv
  have hinline : Line.inline "x" "-y" "x^-Abs-x" = "(-y)^-Abs-(-y)" := by decide +kernel
  have heval : (evaluate (some env) e (.start ⟨0⟩)).1.toBool = true := by decide +kernel
  have heval' : (evaluate (some env) e' (.start ⟨0⟩)).1.toBool = true := by decide +kernel
  obtain ⟨hcompile, hvalue⟩ := compile_inline hname hline hdefinition
  have hcompile' := (hcompile .standard (by rw [hinline]; decide) (by decide)).2
  rw [hinline] at hcompile'
  have hy : ∀ sign, env.HasFunctions (fun name => unaryBuiltins.lookup name) (.var "y" sign) := by
    refine .var fun e he => ?_
    rw [EnvOf.lookup?_bind, if_pos rfl] at he
    obtain rfl := Option.some.inj he
    exact .literal _ _
  have hx : ∀ sign, env.HasFunctions (fun name => unaryBuiltins.lookup name) (.var "x" sign) := by
    refine .var fun e he => ?_
    rw [EnvOf.lookup?_bind, if_neg (by decide), EnvOf.lookup?_bind, if_pos rfl] at he
    obtain rfl := Option.some.inj he
    exact .sum (List.forall_mem_singleton.mpr (hy _)) _
  have habs : env.function? "Abs" = (unaryBuiltins.lookup "Abs").map Program.unary := by
    rw [EnvOf.function?_bind, EnvOf.function?_bind, EnvOf.function?_builtins _ (by decide)]
  have hfunctions : env.HasFunctions (fun name => unaryBuiltins.lookup name) e := by
    refine .sum (List.forall_mem_singleton.mpr ?_) _
    refine .product (List.forall_mem_singleton.mpr ?_) _
    refine .power (List.forall_mem_cons.mpr ⟨hx _, List.forall_mem_singleton.mpr ?_⟩) _
    exact .call habs (hx _) _
  exact ⟨hname, hline, hdefinition, hinline, hcompile', heval,
    hvalue env _ _ (by simp [env]) hfunctions (fun cause _ => ne_error_of_toBool heval cause)
      (fun cause _ => ne_error_of_toBool heval' cause)⟩

end Reckon
