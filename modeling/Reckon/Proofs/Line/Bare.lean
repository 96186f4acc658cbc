import Reckon.Calculate
import Reckon.Proofs.Grammar.Derive
import Reckon.Proofs.Token.Lexemes
import Reckon.Proofs.Tree.Fits

/-!
# What is read of tokens

A token counts for its kind, and for its sign and mark if an operand starts with it: the rest can be
taken off (`Token.bare`). Lines whose tokens agree without the rest compile to the same expressions,
under the same limits (`Expr.ofTokens?_congr`, `toOption_compile_of_kinds`).
-/

namespace Reckon

namespace Token

/-- Whether an operand starts with a token of a given kind. -/
def Kind.startsOperand : Kind → Bool
  | number _ | var _ | function _ | openBracket => true
  | _ => false

/-- A token without its place, and without sign and mark if no operand starts with it. -/
def bare (t : Token) : Token :=
  if t.kind.startsOperand then { t with span := ⟨0, 0⟩ } else plain t.kind ⟨0, 0⟩

variable {t : Token}

@[simp] theorem kind_bare : t.bare.kind = t.kind := by
  unfold bare
  split <;> rfl

theorem sign_bare (h : t.kind.startsOperand = true) : t.bare.sign = t.sign := by
  rw [bare, if_pos h]

theorem explicitSign_bare (h : t.kind.startsOperand = true) :
    t.bare.explicitSign = t.explicitSign := by
  rw [bare, if_pos h]

end Token

namespace Tree

mutual

/-- A tree of bare tokens. -/
def bare : Tree → Tree
  | leaf token => leaf token.bare
  | group opener items => group (opener.map Token.bare) (bareAll items)
  | call function argument => call function.bare (bare argument)
termination_by structural t => t

/-- Trees of bare tokens. -/
def bareAll : List Tree → List Tree
  | [] => []
  | t :: rest => bare t :: bareAll rest
termination_by structural items => items

end

theorem bareAll_eq_map (items : List Tree) : bareAll items = items.map bare := by
  induction items with
  | nil => rfl
  | cons t rest ih => rw [bareAll, ih, List.map_cons]

/-! ## Arranging bare tokens -/

theorem function?_bare (t : Tree) : t.bare.function? = t.function?.map Token.bare := by
  cases t with
  | leaf token =>
    simp only [bare, function?, Token.kind_bare]
    split <;> rfl
  | group opener items => rfl
  | call function argument => rfl

theorem callAll_bare (row : List Token) (argument : Tree) :
    (callAll row argument).bare = callAll (row.map Token.bare) argument.bare := by
  induction row generalizing argument with
  | nil => rfl
  | cons function row ih =>
    rw [callAll_cons, ih, List.map_cons, callAll_cons]
    rfl

theorem fuseAfter_bare (maxDepth depth : Nat) (row : List Token) (items : List Tree) :
    (fuseAfter maxDepth depth (row.map Token.bare) (items.map bare)).toOption =
      (fuseAfter maxDepth depth row items).toOption.map (List.map bare) := by
  induction items generalizing row with
  | nil => cases row <;> rfl
  | cons item rest ih =>
    rw [List.map_cons, fuseAfter, fuseAfter, function?_bare]
    cases item.function? with
    | none =>
      have hrest := ih []
      rw [List.map_nil] at hrest
      simp only [Option.map_none, toOption_bind, hrest]
      cases (fuseAfter maxDepth depth [] rest).toOption with
      | none => rfl
      | some fused =>
        change some (_ :: _) = some (_ :: _)
        rw [callAll_bare]
    | some f =>
      simp only [Option.map_some, List.length_map]
      split
      · rfl
      · rw [← List.map_cons, ih]

/-- A level of bare tokens. -/
def Level.bare (level : Level) : Level := ⟨level.opener.bare, level.before.map Tree.bare⟩

theorem fuse_bare (maxDepth depth : Nat) (items : List Tree) :
    (fuse maxDepth depth (items.map bare).reverse).toOption =
      (fuse maxDepth depth items.reverse).toOption.map (List.map bare) := by
  rw [← List.map_reverse]
  exact fuseAfter_bare maxDepth depth [] items.reverse

theorem readTokens_bare (maxDepth : Nat) (levels : List Level) (items : List Tree)
    (tokens : List Token) :
    (readTokens maxDepth (levels.map Level.bare) (items.map bare)
      (tokens.map Token.bare)).toOption =
      (readTokens maxDepth levels items tokens).toOption.map bare := by
  induction tokens generalizing levels items with
  | nil =>
    cases levels with
    | cons level levels => rfl
    | nil =>
      rw [List.map_nil, List.map_nil, readTokens, readTokens, toOption_bind, toOption_bind,
        fuse_bare]
      cases (fuse maxDepth 0 items.reverse).toOption with
      | none => rfl
      | some fused =>
        exact congrArg (fun below => some (group none below)) (bareAll_eq_map fused).symm
  | cons t rest ih =>
    rw [List.map_cons]
    by_cases hopen : t.kind = .openBracket
    · have hopen' : t.bare.kind = .openBracket := Token.kind_bare.trans hopen
      rw [readTokens_openBracket hopen, readTokens_openBracket hopen', List.length_map]
      split
      · rfl
      · exact ih (⟨t, items⟩ :: levels) []
    · by_cases hclose : t.kind = .closeBracket
      · have hclose' : t.bare.kind = .closeBracket := Token.kind_bare.trans hclose
        cases levels with
        | nil =>
          rw [List.map_nil, readTokens_closeBracket_nil hclose,
            readTokens_closeBracket_nil hclose']
          rfl
        | cons level levels =>
          rw [List.map_cons, readTokens_closeBracket_cons hclose,
            readTokens_closeBracket_cons hclose', toOption_bind, toOption_bind, fuse_bare]
          rw [List.length_cons, List.length_cons, List.length_map]
          cases (fuse maxDepth (levels.length + 1) items.reverse).toOption with
          | none => rfl
          | some fused =>
            have := ih levels (group (some level.opener) fused :: level.before)
            rwa [List.map_cons, bare, bareAll_eq_map] at this
      · rw [readTokens_leaf hopen hclose,
          readTokens_leaf (by rwa [Token.kind_bare]) (by rwa [Token.kind_bare])]
        exact ih levels (leaf t :: items)

/-! ## Reading trees of bare tokens -/

theorem operator?_bare (t : Tree) :
    t.bare.operator? = t.operator?.map fun found => (found.1.bare, found.2) := by
  cases t with
  | leaf token =>
    simp only [bare, operator?, Token.kind_bare]
    split <;> rfl
  | group opener items => rfl
  | call function argument => rfl

end Tree

namespace Expr

open Reckon.Tree (bareAll WellFormed AllWellFormed)

variable {limits : Limits}

/-- Where an operand is read, its mark is left. -/
theorem joint_bare {depth : Nat} {t : Tree} {e : Expr} (hwf : t.WellFormed)
    (h : operand limits depth t = .ok e) : t.bare.joint = t.joint := by
  have hmark {token : Token} (h : token.kind.startsOperand = true) (below below' : List Tree) :
      (Tree.group (some token.bare) below).joint = (Tree.group (some token) below').joint := by
    change (if token.bare.explicitSign then _ else _) = if token.explicitSign then _ else _
    rw [Token.explicitSign_bare h]
  cases t with
  | leaf token =>
    refine hmark ?_ [] []
    rw [operand] at h
    split at h
    · rename_i hkind
      rw [hkind]
      rfl
    · rename_i hkind
      rw [hkind]
      rfl
    · contradiction
  | group opener items =>
    obtain ⟨⟨o, rfl, hkind⟩, -⟩ := hwf
    exact hmark (by rw [hkind]; rfl) _ _
  | call function argument =>
    obtain ⟨⟨name, hkind⟩, -⟩ := hwf
    exact hmark (by rw [hkind]; rfl) [] []

mutual

theorem operand_bare (depth : Nat) (t : Tree) (hwf : t.WellFormed) :
    (operand limits depth t.bare).toOption = (operand limits depth t).toOption := by
  match t with
  | .leaf token =>
    have hsign {k : Token.Kind} (hkind : token.kind = k) (h : k.startsOperand = true) :
        token.bare.sign = token.sign := Token.sign_bare (hkind ▸ h)
    rw [Tree.bare, operand, operand, Token.kind_bare]
    split
    · rename_i hkind
      rw [hsign hkind rfl]
    · rename_i hkind
      rw [hsign hkind rfl]
    · rfl
  | .group opener items =>
    obtain ⟨⟨o, rfl, hkind⟩, hwf⟩ := hwf
    have hsign : o.bare.sign = o.sign := Token.sign_bare (by rw [hkind]; rfl)
    rw [Tree.bare, operand, operand]
    simp only [toOption_bind, row_bare _ items hwf, Option.map_some, Option.getD_some, hsign]
  | .call function argument =>
    obtain ⟨⟨name, hkind⟩, hwf⟩ := hwf
    have hsign : function.bare.sign = function.sign := Token.sign_bare (by rw [hkind]; rfl)
    simp only [Tree.bare, operand, Token.kind_bare, hkind, toOption_bind,
      operand_bare _ argument hwf, hsign]
termination_by structural t

theorem row_bare (depth : Nat) (items : List Tree) (hwf : AllWellFormed items) :
    (row limits depth (bareAll items)).toOption = (row limits depth items).toOption := by
  match items with
  | [] => rfl
  | item :: rest =>
    simp only [bareAll, row, toOption_bind, operand_bare _ item hwf.1, rowAfter_bare _ rest hwf.2]
termination_by structural items

theorem rowAfter_bare (depth : Nat) (items : List Tree) (hwf : AllWellFormed items) :
    (rowAfter limits depth (bareAll items)).toOption =
      (rowAfter limits depth items).toOption := by
  match items with
  | [] => rfl
  | item :: rest =>
    rw [bareAll, rowAfter, rowAfter, Tree.operator?_bare]
    cases item.operator? with
    | some found =>
      match rest with
      | [] => rfl
      | right :: rest =>
        simp only [Option.map_some, bareAll, toOption_bind, operand_bare _ right hwf.2.1,
          rowAfter_bare _ rest hwf.2.2]
    | none =>
      simp only [Option.map_none, toOption_bind, operand_bare _ item hwf.1,
        rowAfter_bare _ rest hwf.2]
      cases he : operand limits depth item with
      | error cause => rfl
      | ok e => rw [joint_bare hwf.1 he]
termination_by structural items

end

end Expr

/-! ## The expression of some tokens -/

namespace Expr

/-- The expression that tokens compile to, if they do. -/
def ofTokens? (limits : Limits) (tokens : List Token) : Option Expr :=
  (Tree.ofTokens limits tokens).toOption.bind fun tree => (ofTree limits tree).toOption

variable {limits : Limits} {tokens tokens' : List Token}

/-- Tokens compile to an expression if they are those of well-formed trees that fit under the limit
and can be read as one level. -/
theorem ofTokens?_eq_some_iff {e : Expr} :
    ofTokens? limits tokens = some e ↔ ∃ items parts, Tree.AllWellFormed items ∧
      Tree.AllFit limits.maxDepth 0 items ∧ Tree.flattenAll items = tokens.map Token.mark ∧
      row limits 0 items = .ok parts ∧ e = sum (assemble parts) .positive := by
  simp only [ofTokens?, Option.bind_eq_some_iff, toOption_eq_some, Tree.ofTokens_eq_ok_iff]
  constructor
  · rintro ⟨_, ⟨items, rfl, hwf, hfits, hflat⟩, he⟩
    obtain ⟨parts, hparts, he⟩ := bind_eq_ok.mp he
    exact ⟨items, parts, hwf, hfits, hflat, hparts, (Except.ok.inj he).symm⟩
  · rintro ⟨items, parts, hwf, hfits, hflat, hparts, rfl⟩
    exact ⟨_, ⟨items, rfl, hwf, hfits, hflat⟩, bind_eq_ok.mpr ⟨parts, hparts, rfl⟩⟩

/-- Nothing is read off tokens but what is left of them without the rest. -/
theorem ofTokens?_bare (limits : Limits) (tokens : List Token) :
    ofTokens? limits (tokens.map Token.bare) = ofTokens? limits tokens := by
  have hbare : (Tree.ofTokens limits (tokens.map Token.bare)).toOption =
      (Tree.ofTokens limits tokens).toOption.map Tree.bare :=
    Tree.readTokens_bare limits.maxDepth [] [] tokens
  rw [ofTokens?, ofTokens?, hbare]
  cases htree : Tree.ofTokens limits tokens with
  | error cause => rfl
  | ok root =>
    obtain ⟨items, rfl, hwf, -⟩ := Tree.flatten_of_ofTokens htree
    change (ofTree limits (.group none (Tree.bareAll items))).toOption =
      (ofTree limits (.group none items)).toOption
    simp only [ofTree, toOption_bind, row_bare _ items hwf]
    rfl

theorem ofTokens?_congr (h : tokens.map Token.bare = tokens'.map Token.bare) :
    ofTokens? limits tokens = ofTokens? limits tokens' := by
  rw [← ofTokens?_bare, h, ofTokens?_bare]

end Expr

/-! ## Lines with the same bare tokens -/

theorem toOption_compile_of_tokenize {limits : Limits} {line : String} {tokens : List Token}
    (h : tokenize line = .ok tokens) :
    (compile limits line).toOption = Expr.ofTokens? limits tokens := by
  have hcompile : compile limits line = (Tree.ofTokens limits tokens).mapError .group >>=
      fun tree => (Expr.ofTree limits tree).mapError .parse := by
    rw [compile, h]
    rfl
  simp only [hcompile, toOption_bind, toOption_mapError, Expr.ofTokens?]

theorem toOption_compile_of_error {limits : Limits} {line : String} {cause : LexError}
    (h : tokenize line = .error cause) : (compile limits line).toOption = none := by
  rw [compile, h]
  rfl

/-- Two lines compile to the same expressions if both of them or none has tokens, and their tokens
do. -/
theorem toOption_compile_eq {limits : Limits} {line line' : String}
    (h : ∀ tokens, tokenize line = .ok tokens → ∃ tokens', tokenize line' = .ok tokens' ∧
      Expr.ofTokens? limits tokens = Expr.ofTokens? limits tokens')
    (h' : ∀ tokens', tokenize line' = .ok tokens' → ∃ tokens, tokenize line = .ok tokens) :
    (compile limits line).toOption = (compile limits line').toOption := by
  cases htokens : tokenize line with
  | ok tokens =>
    obtain ⟨tokens', htokens', heq⟩ := h tokens htokens
    rw [toOption_compile_of_tokenize htokens, toOption_compile_of_tokenize htokens', heq]
  | error cause =>
    cases htokens' : tokenize line' with
    | error cause' =>
      rw [toOption_compile_of_error htokens, toOption_compile_of_error htokens']
    | ok tokens' =>
      obtain ⟨tokens, hok⟩ := h' tokens' htokens'
      rw [htokens] at hok
      contradiction

open Token (Kind Reads Marked)

/-- It is enough to relate what their lexemes are read as, where related kinds end alike and leave
tokens that compile to the same expressions. -/
theorem toOption_compile_of_kinds {limits : Limits} {line line' : List Char}
    {R : List Kind → List Kind → Prop}
    (h : ∀ ks, List.Forall₂ Reads (lexemes line) ks →
      ∃ ks', List.Forall₂ Reads (lexemes line') ks' ∧ R ks ks')
    (h' : ∀ ks', List.Forall₂ Reads (lexemes line') ks' →
      ∃ ks, List.Forall₂ Reads (lexemes line) ks ∧ R ks ks')
    (hlast : ∀ ks ks', R ks ks' → ks.getLast? = ks'.getLast?)
    (htokens : ∀ ks ks', R ks ks' → ∀ tokens tokens', Marked none ks tokens →
      Marked none ks' tokens' → Expr.ofTokens? limits tokens = Expr.ofTokens? limits tokens') :
    (compile limits (String.ofList line)).toOption =
      (compile limits (String.ofList line')).toOption := by
  refine toOption_compile_eq (fun tokens hline => ?_) fun tokens' hline' => ?_
  · obtain ⟨ks, hks, hsign, hmarked⟩ := exists_kinds_of_tokenize hline
    rw [String.toList_ofList] at hks
    obtain ⟨ks', hks', hR⟩ := h ks hks
    rw [hlast ks ks' hR] at hsign
    obtain ⟨tokens', hline', hmarked'⟩ := exists_tokenize_of_kinds hks' hsign
    exact ⟨tokens', hline', htokens ks ks' hR tokens tokens' hmarked hmarked'⟩
  · obtain ⟨ks', hks', hsign, -⟩ := exists_kinds_of_tokenize hline'
    rw [String.toList_ofList] at hks'
    obtain ⟨ks, hks, hR⟩ := h' ks' hks'
    rw [← hlast ks ks' hR] at hsign
    obtain ⟨tokens, hline, -⟩ := exists_tokenize_of_kinds hks hsign
    exact ⟨tokens, hline⟩

end Reckon
