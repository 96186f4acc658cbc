import Reckon.Expr.OfTree
import Reckon.Proofs.Grammar.Derive

/-!
# Which token a failure is put down to

Each failure to arrange tokens is put down to one of these tokens, a bracket or a function
(`exists_blames_of_ofTokens`). A tree that was arranged and still has no expression is too deep, or
the failure is put down to an operator in it (`exists_blames_of_ofTree`).
-/

namespace Reckon

/-- Whether a failure to arrange tokens is put down to a given token. -/
inductive GroupError.Blames : GroupError → Token → Prop where
  | unclosed {t : Token} (h : t.kind = .openBracket) : Blames (.unbalancedBrackets t.span) t
  | unopened {t : Token} (h : t.kind = .closeBracket) : Blames (.unbalancedBrackets t.span) t
  | argument {t : Token} {name : String} (h : t.kind = .function name) :
      Blames (.missingArgument name t.span) t
  | bracket {t : Token} {limit : Nat} (h : t.kind = .openBracket) : Blames (.tooDeep limit t.span) t
  | call {t : Token} {limit : Nat} {name : String} (h : t.kind = .function name) :
      Blames (.tooDeep limit t.span) t

/-- Whether a token stands between two operands. -/
def Token.IsOperator (t : Token) : Prop :=
  t.kind = .times ∨ t.kind = .divide ∨ t.kind = .power

/-- Whether a failure to read a tree is put down to a given token. -/
inductive ParseError.Blames : ParseError → Token → Prop where
  | operand {t : Token} (h : t.IsOperator) : Blames (.missingOperand t.kind.name t.span) t
  | unexpected {t : Token} (h : t.IsOperator) : Blames (.unexpectedToken t.kind.name t.span) t

namespace Tree

/-! ## Arranging tokens -/

section Arranging

variable {P : Token → Prop} {maxDepth : Nat} {cause : GroupError}

/-- Whether the leaves among the trees of a level are tokens of a certain sort. -/
def LeavesAre (P : Token → Prop) (items : List Tree) : Prop := ∀ t, leaf t ∈ items → P t

theorem leavesAre_nil : LeavesAre P [] := fun _ h => absurd h List.not_mem_nil

theorem LeavesAre.cons_leaf {items : List Tree} {t : Token} (ht : P t) (h : LeavesAre P items) :
    LeavesAre P (leaf t :: items) := by
  intro s hs
  rcases List.mem_cons.mp hs with heq | hs
  · obtain rfl := Tree.leaf.inj heq
    exact ht
  · exact h s hs

theorem LeavesAre.cons_group {items below : List Tree} {opener : Option Token}
    (h : LeavesAre P items) : LeavesAre P (group opener below :: items) := by
  intro s hs
  rcases List.mem_cons.mp hs with heq | hs
  · contradiction
  · exact h s hs

theorem exists_blames_of_fuseAfter {depth : Nat} {row : List Token} {items : List Tree}
    (hrow : ∀ f ∈ row, P f ∧ ∃ name, f.kind = .function name) (hitems : LeavesAre P items)
    (h : fuseAfter maxDepth depth row items = .error cause) : ∃ t, P t ∧ cause.Blames t := by
  induction items generalizing row with
  | nil =>
    cases row with
    | nil => contradiction
    | cons last row =>
      obtain rfl := Except.error.inj h
      obtain ⟨hlast, name, hname⟩ := hrow last List.mem_cons_self
      refine ⟨last, hlast, ?_⟩
      rw [hname]
      exact .argument hname
  | cons item rest ih =>
    have hrest : LeavesAre P rest := fun t ht => hitems t (List.mem_cons_of_mem item ht)
    rw [fuseAfter] at h
    split at h
    · rename_i f hf
      obtain ⟨rfl, name, hname⟩ := function?_eq_some hf
      have hPf := hitems f List.mem_cons_self
      split at h
      · obtain rfl := Except.error.inj h
        exact ⟨f, hPf, .call hname⟩
      · exact ih (List.forall_mem_cons.mpr ⟨⟨hPf, name, hname⟩, hrow⟩) hrest h
    · obtain h | ⟨fused, -, h⟩ := bind_eq_error.mp h
      case inr => contradiction
      exact ih (List.forall_mem_nil _) hrest h

/-- Whether the tokens of the open levels are of a certain sort. -/
def LevelsAre (P : Token → Prop) (levels : List Level) : Prop :=
  ∀ level ∈ levels,
    P level.opener ∧ level.opener.kind = .openBracket ∧ LeavesAre P level.before

theorem exists_blames_of_readTokens {levels : List Level} {items : List Tree} {tokens : List Token}
    (hlevels : LevelsAre P levels) (hitems : LeavesAre P items) (htokens : ∀ t ∈ tokens, P t)
    (h : readTokens maxDepth levels items tokens = .error cause) : ∃ t, P t ∧ cause.Blames t := by
  have hreverse {items : List Tree} (h : LeavesAre P items) : LeavesAre P items.reverse :=
    fun t ht => h t (List.mem_reverse.mp ht)
  induction tokens generalizing levels items with
  | nil =>
    cases levels with
    | cons level levels =>
      obtain rfl := Except.error.inj h
      obtain ⟨hopener, hopen, -⟩ := hlevels level List.mem_cons_self
      exact ⟨level.opener, hopener, .unclosed hopen⟩
    | nil =>
      obtain h | ⟨fused, -, h⟩ := bind_eq_error.mp h
      case inr => contradiction
      exact exists_blames_of_fuseAfter (List.forall_mem_nil _) (hreverse hitems) h
  | cons t rest ih =>
    obtain ⟨ht, hrest⟩ := List.forall_mem_cons.mp htokens
    by_cases hopen : t.kind = .openBracket
    · rw [readTokens_openBracket hopen] at h
      split at h
      · obtain rfl := Except.error.inj h
        exact ⟨t, ht, .bracket hopen⟩
      · have hinside : LevelsAre P (⟨t, items⟩ :: levels) :=
          List.forall_mem_cons.mpr ⟨⟨ht, hopen, hitems⟩, hlevels⟩
        exact ih hinside leavesAre_nil hrest h
    · by_cases hclose : t.kind = .closeBracket
      · cases levels with
        | nil =>
          rw [readTokens_closeBracket_nil hclose] at h
          obtain rfl := Except.error.inj h
          exact ⟨t, ht, .unopened hclose⟩
        | cons level levels =>
          obtain ⟨⟨-, -, hbefore⟩, houter⟩ := List.forall_mem_cons.mp hlevels
          rw [readTokens_closeBracket_cons hclose] at h
          obtain h | ⟨fused, -, h⟩ := bind_eq_error.mp h
          · exact exists_blames_of_fuseAfter (List.forall_mem_nil _) (hreverse hitems) h
          · exact ih houter hbefore.cons_group hrest h
      · rw [readTokens_leaf hopen hclose] at h
        exact ih hlevels (hitems.cons_leaf ht) hrest h

/-- A failure to arrange tokens is put down to one of them. -/
theorem exists_blames_of_ofTokens {limits : Limits} {tokens : List Token}
    (h : ofTokens limits tokens = .error cause) : ∃ t ∈ tokens, cause.Blames t :=
  exists_blames_of_readTokens (List.forall_mem_nil _) leavesAre_nil (fun _ ht => ht) h

end Arranging

end Tree

namespace Expr

open Reckon.Tree (flatten flattenAll WellFormed AllWellFormed)

/-! ## Reading trees -/

section Reading

variable {P : Token → Prop} {limits : Limits} {cause : ParseError}

/-- Whether a failure to read a tree is one of depth or is put down to a token of a certain sort. -/
def Explains (P : Token → Prop) (cause : ParseError) : Prop :=
  cause.IsTooDeep ∨ ∃ t, P t ∧ cause.Blames t

theorem explains_of_enter {depth : Nat} (h : enter limits depth = .error cause) :
    Explains P cause := by
  unfold enter at h
  split at h
  · obtain rfl := Except.error.inj h
    exact .inl trivial
  · contradiction

/-- A leaf that stands for no operand is an operator. -/
theorem isOperator_of_leaf {token : Token} {depth : Nat} (hwf : (Tree.leaf token).WellFormed)
    (hsign : token.kind.isSign = false) (h : operand limits depth (.leaf token) = .error cause) :
    token.IsOperator ∧ cause = .unexpectedToken token.kind.name token.span := by
  obtain ⟨hopen, hclose, hfunction⟩ := hwf
  rw [operand] at h
  split at h
  · contradiction
  · contradiction
  · rename_i hnumber hvar
    refine ⟨?_, (Except.error.inj h).symm⟩
    unfold Token.IsOperator
    cases hkind : token.kind with
    | number x => exact absurd hkind (hnumber x)
    | var name => exact absurd hkind (hvar name)
    | function name => exact absurd hkind (hfunction name)
    | openBracket => exact absurd hkind hopen
    | closeBracket => exact absurd hkind hclose
    | plus => rw [hkind] at hsign; contradiction
    | minus => rw [hkind] at hsign; contradiction
    | times => exact .inl rfl
    | divide => exact .inr (.inl rfl)
    | power => exact .inr (.inr rfl)

mutual

theorem explains_of_operand {depth : Nat} (t : Tree) (hwf : t.WellFormed)
    (htokens : ∀ s, some s ∈ t.flatten → P s ∧ s.kind.isSign = false)
    (h : operand limits depth t = .error cause) : Explains P cause := by
  match t with
  | .leaf token =>
    obtain ⟨htoken, hsign⟩ := htokens token (List.mem_singleton.mpr rfl)
    obtain ⟨hoperator, rfl⟩ := isOperator_of_leaf hwf hsign h
    exact .inr ⟨token, htoken, .unexpected hoperator⟩
  | .group opener items =>
    obtain ⟨-, hwf⟩ := hwf
    rw [operand] at h
    obtain h | ⟨below, -, h⟩ := bind_eq_error.mp h
    · exact explains_of_enter h
    · obtain h | ⟨parts, -, h⟩ := bind_eq_error.mp h
      case inr => contradiction
      refine explains_of_row items hwf (fun s hs => htokens s ?_) h
      rw [flatten]
      exact List.mem_append_left _ (List.mem_append_right _ hs)
  | .call function argument =>
    obtain ⟨⟨name, hname⟩, hwf⟩ := hwf
    simp only [operand, hname] at h
    obtain h | ⟨below, -, h⟩ := bind_eq_error.mp h
    · exact explains_of_enter h
    · obtain h | ⟨e, -, h⟩ := bind_eq_error.mp h
      case inr => contradiction
      exact explains_of_operand argument hwf
        (fun s hs => htokens s (List.mem_cons_of_mem _ hs)) h
termination_by structural t

theorem explains_of_row {depth : Nat} (items : List Tree) (hwf : AllWellFormed items)
    (htokens : ∀ s, some s ∈ flattenAll items → P s ∧ s.kind.isSign = false)
    (h : row limits depth items = .error cause) : Explains P cause := by
  match items with
  | [] => contradiction
  | item :: rest =>
    rw [row] at h
    obtain h | ⟨e, -, h⟩ := bind_eq_error.mp h
    · exact explains_of_operand item hwf.1 (fun s hs => htokens s (List.mem_append_left _ hs)) h
    · obtain h | ⟨others, -, h⟩ := bind_eq_error.mp h
      case inr => contradiction
      exact explains_of_rowAfter rest hwf.2 (fun s hs => htokens s (List.mem_append_right _ hs)) h
termination_by structural items

theorem explains_of_rowAfter {depth : Nat} (items : List Tree) (hwf : AllWellFormed items)
    (htokens : ∀ s, some s ∈ flattenAll items → P s ∧ s.kind.isSign = false)
    (h : rowAfter limits depth items = .error cause) : Explains P cause := by
  match items with
  | [] => contradiction
  | item :: rest =>
    have hitem := fun s hs => htokens s (List.mem_append_left _ hs)
    have hrest := fun s hs => htokens s (List.mem_append_right _ hs)
    rw [rowAfter] at h
    split at h
    · rename_i token joint hop
      obtain ⟨rfl, hkind⟩ := Grammar.operator?_eq_some hop
      match rest with
      | [] =>
        -- the level ends with an operator
        obtain rfl := Except.error.inj h
        have hoperator : token.IsOperator :=
          hkind.imp And.left (Or.imp And.left And.left)
        exact .inr ⟨token, (hitem token (List.mem_singleton.mpr rfl)).1, .operand hoperator⟩
      | right :: rest =>
        obtain h | ⟨e, -, h⟩ := bind_eq_error.mp h
        · exact explains_of_operand right hwf.2.1
            (fun s hs => hrest s (List.mem_append_left _ hs)) h
        · obtain h | ⟨others, -, h⟩ := bind_eq_error.mp h
          case inr => contradiction
          exact explains_of_rowAfter rest hwf.2.2
            (fun s hs => hrest s (List.mem_append_right _ hs)) h
    · obtain h | ⟨e, -, h⟩ := bind_eq_error.mp h
      · exact explains_of_operand item hwf.1 hitem h
      · obtain h | ⟨others, -, h⟩ := bind_eq_error.mp h
        case inr => contradiction
        exact explains_of_rowAfter rest hwf.2 hrest h
termination_by structural items

end

/-- A failure to read the tree of some tokens without signs is one of depth or is put down to an
operator among them. -/
theorem exists_blames_of_ofTree {tokens : List Token} {root : Tree}
    (htree : Tree.ofTokens limits tokens = .ok root)
    (hsigns : ∀ t ∈ tokens, t.kind.isSign = false) (h : ofTree limits root = .error cause) :
    cause.IsTooDeep ∨ ∃ t ∈ tokens, cause.Blames t := by
  obtain ⟨items, rfl, hwf, hflat⟩ := Tree.flatten_of_ofTokens htree
  obtain h | ⟨parts, -, h⟩ := bind_eq_error.mp h
  case inr => contradiction
  refine explains_of_row (P := (· ∈ tokens)) items hwf (fun s hs => ?_) h
  rw [hflat] at hs
  obtain ⟨t, ht, hmark⟩ := List.mem_map.mp hs
  obtain ⟨rfl, -⟩ := Token.mark_eq_some.mp hmark
  exact ⟨ht, hsigns t ht⟩

end Reading

end Expr

end Reckon
