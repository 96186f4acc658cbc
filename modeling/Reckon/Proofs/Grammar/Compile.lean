import Mathlib.Data.List.SplitBy
import Reckon.Calculate
import Reckon.Expr.Text
import Reckon.Proofs.Grammar.Derive
import Reckon.Proofs.Grammar.Unique
import Reckon.Proofs.Tree.Fits

/-!
# Compiling follows the grammar

As soon as the nesting limit reaches the length of a line, compiling accepts exactly the lines whose
tokens have a derivation and gives the expression of that derivation
(`compile_eq_ok_iff_derivation`).
-/

namespace Reckon

namespace Token

/-! ## A line has no more tokens than characters -/

theorem length_ofLexemes_le {start : Nat} {words : List (List Char)} {tokens : List Token}
    (h : ofLexemes start words = .ok tokens) : tokens.length ≤ words.flatten.length := by
  induction words generalizing start tokens with
  | nil =>
    obtain rfl := Except.ok.inj h
    exact Nat.le_refl 0
  | cons word words ih =>
    cases word with
    | nil => exact ih h
    | cons c rest =>
      obtain ⟨kind, -, h⟩ := bind_eq_ok.mp h
      obtain ⟨others, hothers, h⟩ := bind_eq_ok.mp h
      obtain rfl := Except.ok.inj h
      have := ih hothers
      simp only [List.length_cons, List.flatten_cons, List.length_append]
      omega

theorem length_foldSignsAfter_le {before : Option Token} {tokens folded : List Token}
    (h : foldSignsAfter before tokens = .ok folded) : folded.length ≤ tokens.length := by
  induction tokens generalizing before folded with
  | nil =>
    simp only [foldSignsAfter] at h
    split at h
    · split at h
      · contradiction
      · obtain rfl := Except.ok.inj h
        exact Nat.le_refl 0
    · obtain rfl := Except.ok.inj h
      exact Nat.le_refl 0
  | cons t rest ih =>
    rw [foldSignsAfter] at h
    obtain ⟨others, hothers, h⟩ := bind_eq_ok.mp h
    obtain rfl := Except.ok.inj h
    have := ih hothers
    split
    · exact Nat.le_succ_of_le this
    · exact Nat.succ_le_succ this

end Token

theorem length_tokenize_le {line : String} {tokens : List Token} (h : tokenize line = .ok tokens) :
    tokens.length ≤ line.length := by
  obtain ⟨scanned, hscan, hfold⟩ := bind_eq_ok.mp h
  have hchars := Token.length_ofLexemes_le hscan
  rw [lexemes, List.flatten_splitBy, String.length_toList] at hchars
  exact Nat.le_trans (Token.length_foldSignsAfter_le hfold) hchars

/-! ## Compiling and deriving -/

theorem compile_eq_ok {limits : Limits} {line : String} {e : Expr} :
    compile limits line = .ok e ↔ ∃ tokens tree, tokenize line = .ok tokens ∧
      Tree.ofTokens limits tokens = .ok tree ∧ Expr.ofTree limits tree = .ok e := by
  refine ⟨fun h => ?_, fun ⟨tokens, tree, htokens, htree, he⟩ => ?_⟩
  · obtain ⟨tokens, htokens, h⟩ := bind_eq_ok.mp h
    obtain ⟨tree, htree, he⟩ := bind_eq_ok.mp h
    exact ⟨tokens, tree, mapError_eq_ok.mp htokens, mapError_eq_ok.mp htree, mapError_eq_ok.mp he⟩
  · refine bind_eq_ok.mpr ⟨tokens, mapError_eq_ok.mpr htokens, ?_⟩
    exact bind_eq_ok.mpr ⟨tree, mapError_eq_ok.mpr htree, mapError_eq_ok.mpr he⟩

/-- Whatever the limits, an expression comes from a derivation of the tokens of its line. -/
theorem exists_derivation_of_compile {limits : Limits} {line : String} {e : Expr}
    (h : compile limits line = .ok e) :
    ∃ tokens, tokenize line = .ok tokens ∧ ∃ d : Grammar.Sum tokens, d.expr = e := by
  obtain ⟨tokens, tree, htokens, htree, he⟩ := compile_eq_ok.mp h
  obtain ⟨items, rfl, hwf, hflat⟩ := Tree.flatten_of_ofTokens htree
  obtain ⟨row, hrow, he⟩ := bind_eq_ok.mp he
  obtain rfl := Except.ok.inj he
  obtain ⟨d, hd⟩ := Grammar.exists_sum items ⟨hwf, hflat⟩ hrow
  refine ⟨tokens, htokens, d, ?_⟩
  rw [Grammar.Sum.expr, hd]
  rfl

/-- With limits that allow for all its tokens, a line with a derivation has that expression. -/
theorem compile_of_derivation {limits : Limits} {line : String} {tokens : List Token}
    (htokens : tokenize line = .ok tokens) (hdepth : tokens.length ≤ limits.maxDepth)
    (hword : tokens.length ≤ Limits.ceiling) (d : Grammar.Sum tokens) :
    compile limits line = .ok d.expr := by
  obtain ⟨hwf, hflat⟩ := d.spells_items
  have hlevels : 0 + tokens.length ≤ limits.treeDepth := by
    rw [Limits.treeDepth]
    omega
  refine compile_eq_ok.mpr ⟨tokens, .group none d.items, htokens,
    Tree.ofTokens_of_flatten hwf hflat.symm hdepth, ?_⟩
  rw [Expr.ofTree, d.row_items limits 0 hlevels]
  change Except.ok (Expr.sum (Expr.assemble d.row) .positive) = _
  rw [d.assemble_row]
  rfl

/-- As soon as the nesting limit reaches the length of a line, compiling gives the expression of the
derivation of its tokens and fails if there is none; no line has two derivations. The second bound
holds of every limit, since limits are machine words. -/
theorem compile_eq_ok_iff_derivation (limits : Limits) (line : String)
    (hdepth : line.length ≤ limits.maxDepth) (hword : limits.maxDepth ≤ Limits.ceiling) :
    (∀ e, compile limits line = .ok e ↔
      ∃ tokens, tokenize line = .ok tokens ∧ ∃ d : Grammar.Sum tokens, d.expr = e) ∧
    ∀ tokens, tokenize line = .ok tokens → Subsingleton (Grammar.Sum tokens) := by
  refine ⟨fun e => ⟨exists_derivation_of_compile, ?_⟩, ?_⟩
  · rintro ⟨tokens, htokens, d, rfl⟩
    have hlength := Nat.le_trans (length_tokenize_le htokens) hdepth
    exact compile_of_derivation htokens hlength (Nat.le_trans hlength hword) d
  · exact fun tokens _ => Grammar.Sum.subsingleton tokens

/-- A quotient by a power whose base has a sign and whose exponent is a call without brackets. -/
theorem exists_derivation_quotient :
    "x/-y^Sin-2".length ≤ Limits.standard.maxDepth ∧
      Limits.standard.maxDepth ≤ Limits.ceiling ∧
      ∃ e, e.text = "((x*((-y^Sin(-2))^-1)))" ∧
        ∃ tokens, tokenize "x/-y^Sin-2" = .ok tokens ∧ ∃ d : Grammar.Sum tokens, d.expr = e := by
  have hdepth : "x/-y^Sin-2".length ≤ Limits.standard.maxDepth := by decide
  have hword : Limits.standard.maxDepth ≤ Limits.ceiling := by decide
  have hcompile : (compile .standard "x/-y^Sin-2").toOption.map Expr.text =
      some "((x*((-y^Sin(-2))^-1)))" := by decide +kernel
  obtain ⟨e, he, htext⟩ := Option.map_eq_some_iff.mp hcompile
  refine ⟨hdepth, hword, e, htext, ?_⟩
  exact ((compile_eq_ok_iff_derivation .standard _ hdepth hword).1 e).mp (toOption_eq_some.mp he)

end Reckon
