import Mathlib.Tactic.Ring
import Reckon.Calculate
import Reckon.Expr.Text
import Reckon.Proofs.Limits.Compile
import Reckon.Proofs.Tree.Fits

/-!
# Two ways to count nesting

Tokens are arranged in a tree by the levels of their brackets, where the calls of a row count on top
of the level that the row stands in, but a bracket behind a row starts from that level again. The
tree is then read by its own levels, of which there may be twice as many. For a call with its
argument in brackets the double is enough, for longer rows in front of brackets it is not
(`nesting_limits_agree_iff`).
-/

namespace Reckon

namespace Tree

/-! ## The levels of a tree -/

mutual

/-- The number of groups and calls around the innermost part of a tree, with itself. -/
def nesting : Tree → Nat
  | leaf _ => 0
  | group _ items => nestingAll items + 1
  | call _ argument => nesting argument + 1
termination_by structural t => t

/-- The number of groups and calls around the innermost part of some trees. -/
def nestingAll : List Tree → Nat
  | [] => 0
  | t :: rest => max (nesting t) (nestingAll rest)
termination_by structural items => items

end

theorem nesting_of_operator? {t : Tree} {operator : Token × Joint}
    (h : t.operator? = some operator) : t.nesting = 0 := by
  cases t with
  | leaf token => rfl
  | group opener items => contradiction
  | call function argument => contradiction

end Tree

/-! ## Reading a tree counts its levels -/

namespace Expr

/-- Whether a computation that opens `levels` levels fails for depth only if these are more than a
tree may have, and succeeds only if they are not. -/
structure Nests (limits : Limits) (levels : Nat) {α : Type} (x : Except ParseError α) : Prop where
  tooDeep (limit : Nat) (h : x = .error (.tooDeep limit)) :
    limit = limits.maxDepth ∧ limits.treeDepth < levels
  ok (a : α) (h : x = .ok a) : levels ≤ limits.treeDepth

namespace Nests

variable {limits : Limits} {levels levels' : Nat} {α β : Type}

theorem of_ok (h : levels ≤ limits.treeDepth) (a : α) :
    Nests limits levels (.ok a : Except ParseError α) := ⟨nofun, fun _ _ => h⟩

theorem of_error {cause : ParseError} (h : ∀ limit, cause ≠ .tooDeep limit) :
    Nests limits levels (.error cause : Except ParseError α) :=
  ⟨fun limit heq => absurd (Except.error.inj heq) (h limit), nofun⟩

theorem bind {x : Except ParseError α} {f : α → Except ParseError β} (h : Nests limits levels x)
    (hnext : ∀ a, Nests limits levels' (f a)) :
    Nests limits (max levels levels') (x >>= f) := by
  cases x with
  | error cause =>
    refine ⟨fun limit heq => ?_, nofun⟩
    obtain ⟨hlimit, hlevels⟩ := h.tooDeep limit (congrArg _ (Except.error.inj heq))
    exact ⟨hlimit, by omega⟩
  | ok a =>
    have hlevels := h.ok a rfl
    refine ⟨fun limit heq => ?_, fun b heq => ?_⟩
    · obtain ⟨hlimit, hlevels'⟩ := (hnext a).tooDeep limit heq
      exact ⟨hlimit, by omega⟩
    · have hlevels' := (hnext a).ok b heq
      omega

theorem map {x : Except ParseError α} (h : Nests limits levels x) (f : α → β) :
    Nests limits levels (x >>= fun a => .ok (f a)) := by
  cases x with
  | error cause =>
    exact ⟨fun limit heq => h.tooDeep limit (congrArg _ (Except.error.inj heq)), nofun⟩
  | ok a => exact of_ok (h.ok a rfl) (f a)

/-- Going one level down takes one more level. -/
theorem enter {depth : Nat} {f : Nat → Except ParseError β}
    (hnext : depth + 1 ≤ limits.treeDepth → Nests limits (depth + 1 + levels) (f (depth + 1))) :
    Nests limits (depth + (levels + 1)) (Expr.enter limits depth >>= f) := by
  rw [Expr.enter]
  by_cases hdepth : limits.treeDepth ≤ depth
  · rw [if_pos hdepth]
    refine ⟨fun limit heq => ?_, nofun⟩
    obtain rfl := ParseError.tooDeep.inj (Except.error.inj heq)
    exact ⟨rfl, by omega⟩
  · rw [if_neg hdepth, show depth + (levels + 1) = depth + 1 + levels by omega]
    exact hnext (by omega)

end Nests

variable {limits : Limits}

mutual

theorem operand_nests {depth : Nat} (hdepth : depth ≤ limits.treeDepth) (t : Tree) :
    Nests limits (depth + t.nesting) (operand limits depth t) := by
  match t with
  | .leaf token =>
    rw [operand]
    split
    · exact .of_ok hdepth _
    · exact .of_ok hdepth _
    · exact .of_error nofun
  | .group opener items =>
    exact .enter fun hbelow => (row_nests hbelow items).map _
  | .call token argument =>
    rw [operand]
    split
    · exact .enter fun hbelow => (operand_nests hbelow argument).map _
    · exact .of_error nofun
termination_by structural t

theorem row_nests {depth : Nat} (hdepth : depth ≤ limits.treeDepth) (items : List Tree) :
    Nests limits (depth + Tree.nestingAll items) (row limits depth items) := by
  match items with
  | [] => exact .of_ok hdepth _
  | item :: rest =>
    rw [Tree.nestingAll, ← Nat.add_max_add_left]
    exact (operand_nests hdepth item).bind fun e => (rowAfter_nests hdepth rest).map _
termination_by structural items

theorem rowAfter_nests {depth : Nat} (hdepth : depth ≤ limits.treeDepth)
    (items : List Tree) :
    Nests limits (depth + Tree.nestingAll items) (rowAfter limits depth items) := by
  match items with
  | [] => exact .of_ok hdepth _
  | item :: rest =>
    rw [rowAfter.eq_def]
    dsimp only
    cases hoperator : item.operator? with
    | none =>
      rw [Tree.nestingAll, ← Nat.add_max_add_left]
      exact (operand_nests hdepth item).bind fun e => (rowAfter_nests hdepth rest).map _
    | some operator =>
      rw [Tree.nestingAll, Tree.nesting_of_operator? hoperator, Nat.zero_max]
      cases rest with
      | nil => exact .of_error nofun
      | cons right rest =>
        rw [Tree.nestingAll, ← Nat.add_max_add_left]
        exact (operand_nests hdepth right).bind fun e => (rowAfter_nests hdepth rest).map _
termination_by structural items

end

/-- A tree is too deep only if the trees of its top level nest deeper than trees may, and if they do
it has no expression. -/
theorem ofTree_nests (opener : Option Token) (items : List Tree) :
    Nests limits (Tree.nestingAll items) (ofTree limits (.group opener items)) := by
  have hrow := row_nests (Nat.zero_le limits.treeDepth) items
  rw [Nat.zero_add] at hrow
  exact hrow.map _

end Expr

namespace Tree

/-! ## How deep a tree nests that fits under a limit -/

mutual

/-- A tree that fits nests at most as deep as with the longest row that is allowed on every level.
-/
theorem nesting_le_of_fits {maxDepth depth calls room : Nat} (t : Tree)
    (hroom : maxDepth = depth + room) (hcalls : calls ≤ room) (h : t.Fits maxDepth depth calls) :
    2 * (t.nesting + calls) ≤ room * (room + 3) := by
  match t with
  | leaf _ =>
    rw [nesting, Nat.mul_add room]
    omega
  | call _ argument =>
    have hargument := nesting_le_of_fits argument hroom (by have := h.1; omega) h.2
    rw [nesting]
    omega
  | group _ items =>
    obtain ⟨hdepth, hitems⟩ := h
    obtain ⟨room, rfl⟩ : ∃ inside, room = inside + 1 := ⟨room - 1, by omega⟩
    have hbelow : maxDepth = depth + 1 + room := by omega
    have hinside := nestingAll_le_of_fits items hbelow hitems
    have hlevel : (room + 1) * (room + 1 + 3) = room * (room + 3) + 2 * (room + 2) := by ring
    rw [nesting]
    omega
termination_by structural t

theorem nestingAll_le_of_fits {maxDepth depth room : Nat} (items : List Tree)
    (hroom : maxDepth = depth + room) (h : AllFit maxDepth depth items) :
    2 * nestingAll items ≤ room * (room + 3) := by
  match items with
  | [] => exact Nat.zero_le _
  | t :: rest =>
    have hfirst := nesting_le_of_fits t hroom (Nat.zero_le room) h.1
    have hrest := nestingAll_le_of_fits rest hroom h.2
    rw [nestingAll]
    omega
termination_by structural items

end

mutual

theorem nesting_le_length (t : Tree) : t.nesting ≤ t.flatten.length := by
  match t with
  | leaf _ => exact Nat.zero_le _
  | call _ argument => exact Nat.succ_le_succ (nesting_le_length argument)
  | group _ items =>
    have hitems := nestingAll_le_length items
    simp only [nesting, flatten, List.length_append, List.length_cons, List.length_nil]
    omega
termination_by structural t

theorem nestingAll_le_length (items : List Tree) :
    nestingAll items ≤ (flattenAll items).length := by
  match items with
  | [] => exact Nat.zero_le _
  | t :: rest =>
    have hfirst := nesting_le_length t
    have hrest := nestingAll_le_length rest
    rw [nestingAll, flattenAll, List.length_append]
    omega
termination_by structural items

end

/-! ## Rows in front of brackets -/

/-- Whether two functions stand directly in front of a bracket. -/
def RowBeforeBracket (marks : List (Option Token)) : Prop :=
  ∃ f g b, [some f, some g, some b] <:+: marks ∧ (∃ name, f.kind = .function name) ∧
    (∃ name, g.kind = .function name) ∧ b.kind = .openBracket

theorem RowBeforeBracket.mono {marks marks' : List (Option Token)} (h : RowBeforeBracket marks)
    (hsub : marks <:+: marks') : RowBeforeBracket marks' := by
  obtain ⟨f, g, b, hrow, hkinds⟩ := h
  exact ⟨f, g, b, hrow.trans hsub, hkinds⟩

mutual

/-- Without a row in front of a bracket, a tree that fits is a row before a leaf, a group, or a call
of one function on a group. -/
theorem nesting_cases {maxDepth depth calls room : Nat} (t : Tree) (hwf : t.WellFormed)
    (hroom : maxDepth = depth + room) (hcalls : calls ≤ room) (h : t.Fits maxDepth depth calls) :
    RowBeforeBracket t.flatten ∨ t.nesting + calls ≤ room ∨
      (∃ b items, t = group (some b) items ∧ b.kind = .openBracket ∧ t.nesting + 1 ≤ 2 * room) ∨
      ∃ f b items, t = call f (group (some b) items) ∧ (∃ name, f.kind = .function name) ∧
        b.kind = .openBracket ∧ t.nesting ≤ 2 * room := by
  match t with
  | leaf _ => exact .inr (.inl (by rw [nesting]; omega))
  | group opener items =>
    obtain ⟨⟨b, rfl, hb⟩, hwf⟩ := hwf
    obtain ⟨hdepth, hitems⟩ := h
    obtain ⟨room, rfl⟩ : ∃ inside, room = inside + 1 := ⟨room - 1, by omega⟩
    have hbelow : maxDepth = depth + 1 + room := by omega
    rcases nestingAll_cases items hwf hbelow hitems with hrow | hinside
    · refine .inl (hrow.mono ?_)
      exact ⟨[some b], [none], rfl⟩
    · exact .inr (.inr (.inl ⟨b, items, rfl, hb, by rw [nesting]; omega⟩))
  | call f argument =>
    obtain ⟨hf, hwf⟩ := hwf
    obtain ⟨hdepth, hargument⟩ := h
    -- a call of a call on a group is a row in front of a bracket, any other one is one level more
    rcases nesting_cases argument hwf hroom (by omega) hargument with
      hrow | hleaf | ⟨b, items, rfl, hb, hgroup⟩ | ⟨g, b, items, rfl, hg, hb, -⟩
    · exact .inl (hrow.mono (List.suffix_cons _ _).isInfix)
    · exact .inr (.inl (by rw [nesting]; omega))
    · exact .inr (.inr (.inr ⟨f, b, items, rfl, hf, hb, by rw [nesting]; omega⟩))
    · exact .inl ⟨f, g, b, ⟨[], flattenAll items ++ [none], rfl⟩, hf, hg, hb⟩
termination_by structural t

theorem nestingAll_cases {maxDepth depth room : Nat} (items : List Tree) (hwf : AllWellFormed items)
    (hroom : maxDepth = depth + room) (h : AllFit maxDepth depth items) :
    RowBeforeBracket (flattenAll items) ∨ nestingAll items ≤ 2 * room := by
  match items with
  | [] => exact .inr (Nat.zero_le _)
  | t :: rest =>
    rcases nestingAll_cases rest hwf.2 hroom h.2 with hrow | hrest
    · exact .inl (hrow.mono (List.suffix_append _ _).isInfix)
    · rcases nesting_cases t hwf.1 hroom (Nat.zero_le room) h.1 with
        hrow | hleaf | ⟨_, _, _, _, hgroup⟩ | ⟨_, _, _, _, _, _, hcall⟩
      · exact .inl (hrow.mono (List.prefix_append _ _).isInfix)
      all_goals
        refine .inr ?_
        rw [nestingAll]
        omega
termination_by structural items

end

theorem rowBeforeBracket_map_mark {tokens : List Token}
    (h : RowBeforeBracket (tokens.map Token.mark)) :
    ∃ f g b, [f, g, b] <:+: tokens ∧ (∃ name, f.kind = .function name) ∧
      (∃ name, g.kind = .function name) ∧ b.kind = .openBracket := by
  obtain ⟨f, g, b, ⟨before, after, htokens⟩, hkinds⟩ := h
  obtain ⟨most, last, rfl, hmost, -⟩ := List.map_eq_append_iff.mp htokens.symm
  obtain ⟨first, row, rfl, -, hrow⟩ := List.map_eq_append_iff.mp hmost
  simp only [List.map_eq_cons_iff, List.map_eq_nil_iff, Token.mark_eq_some] at hrow
  obtain ⟨_, _, rfl, ⟨rfl, -⟩, _, _, rfl, ⟨rfl, -⟩, _, _, rfl, ⟨rfl, -⟩, rfl⟩ := hrow
  exact ⟨_, _, _, ⟨first, last, rfl⟩, hkinds⟩

/-! ## The deepest trees that fit -/

theorem nesting_callAll (row : List Token) (argument : Tree) :
    (callAll row argument).nesting = argument.nesting + row.length := by
  induction row generalizing argument with
  | nil => rfl
  | cons function row ih =>
    rw [callAll_cons, ih, nesting, List.length_cons]
    omega

/-- On each level a row of functions as long as the limit allows, in front of a bracket. -/
def deepest : Nat → Tree
  | 0 => leaf (.plain (.number 1) ⟨0, 0⟩)
  | room + 1 =>
    callAll (List.replicate (room + 1) (.plain (.function "Sin") ⟨0, 0⟩))
      (group (some (.plain .openBracket ⟨0, 0⟩)) [deepest room])

theorem wellFormed_deepest (room : Nat) : (deepest room).WellFormed := by
  induction room with
  | zero => exact ⟨nofun, nofun, nofun⟩
  | succ room ih =>
    refine wellFormed_callAll (fun f hf => ?_) ⟨⟨_, rfl, rfl⟩, ih, trivial⟩
    rw [List.eq_of_mem_replicate hf]
    exact ⟨"Sin", rfl⟩

theorem fits_deepest (depth room : Nat) : (deepest room).Fits (depth + room) depth 0 := by
  induction room generalizing depth with
  | zero => trivial
  | succ room ih =>
    have hinside := ih (depth + 1)
    rw [Nat.add_right_comm, Nat.add_assoc] at hinside
    exact fits_callAll (by rw [List.length_replicate]) ⟨by omega, hinside, trivial⟩

theorem nesting_deepest (room : Nat) : 2 * (deepest room).nesting = room * (room + 3) := by
  induction room with
  | zero => rfl
  | succ room ih =>
    have hlevel : (room + 1) * (room + 1 + 3) = room * (room + 3) + 2 * (room + 2) := by ring
    rw [deepest, nesting_callAll, nesting, nestingAll, nestingAll, List.length_replicate]
    omega

end Tree

namespace Expr

/-- Whether a tree is an operand wherever it does not lie too deep. -/
def IsOperand (t : Tree) : Prop :=
  ∀ limits depth, ∃ e, UpTo ParseError.IsTooDeep (operand limits depth t) (.ok e)

theorem enter_upTo_ok (limits : Limits) (depth : Nat) :
    UpTo ParseError.IsTooDeep (enter limits depth) (.ok (depth + 1)) := by
  rw [enter]
  split
  · exact .of_error trivial _
  · exact .refl _

theorem row_singleton_upTo {t : Tree} (h : IsOperand t) (limits : Limits) (depth : Nat) :
    ∃ parts, UpTo ParseError.IsTooDeep (row limits depth [t]) (.ok parts) :=
  UpTo.exists_ok_bind (h limits depth) fun _ => ⟨_, .refl _⟩

theorem isOperand_group {t : Tree} (h : IsOperand t) (opener : Option Token) :
    IsOperand (.group opener [t]) := fun limits depth =>
  UpTo.exists_ok_bind ⟨_, enter_upTo_ok limits depth⟩ fun below =>
    UpTo.exists_ok_bind (row_singleton_upTo h limits below) fun _ => ⟨_, .refl _⟩

theorem isOperand_call {t : Tree} (h : IsOperand t) {f : Token}
    (hf : ∃ name, f.kind = .function name) : IsOperand (.call f t) := by
  intro limits depth
  obtain ⟨name, hname⟩ := hf
  rw [operand]
  simp only [hname]
  exact UpTo.exists_ok_bind ⟨_, enter_upTo_ok limits depth⟩ fun below =>
    UpTo.exists_ok_bind (h limits below) fun _ => ⟨_, .refl _⟩

theorem isOperand_callAll {row : List Token} {t : Tree} (h : IsOperand t)
    (hrow : ∀ f ∈ row, ∃ name, f.kind = .function name) : IsOperand (Tree.callAll row t) := by
  induction row generalizing t with
  | nil => exact h
  | cons f row ih =>
    rw [List.forall_mem_cons] at hrow
    rw [Tree.callAll_cons]
    exact ih (isOperand_call h hrow.1) hrow.2

theorem isOperand_deepest (room : Nat) : IsOperand (Tree.deepest room) := by
  induction room with
  | zero => exact fun limits depth => ⟨_, .refl _⟩
  | succ room ih =>
    refine isOperand_callAll (isOperand_group ih _) fun f hf => ?_
    rw [List.eq_of_mem_replicate hf]
    exact ⟨"Sin", rfl⟩

/-- From a limit of two on, there are tokens that can be arranged in a tree that cannot be read. -/
theorem exists_ofTree_tooDeep {limits : Limits} (h : 2 ≤ limits.maxDepth) :
    ∃ tokens root, Tree.ofTokens limits tokens = .ok root ∧
      ∃ limit, ofTree limits root = .error (.tooDeep limit) := by
  have hwf : Tree.AllWellFormed [Tree.deepest limits.maxDepth] :=
    ⟨Tree.wellFormed_deepest _, trivial⟩
  have hfits : Tree.AllFit limits.maxDepth 0 [Tree.deepest limits.maxDepth] := by
    have hdeepest := Tree.fits_deepest 0 limits.maxDepth
    rw [Nat.zero_add] at hdeepest
    exact ⟨hdeepest, trivial⟩
  obtain ⟨tokens, htokens⟩ := Tree.exists_tokens hwf
  refine ⟨tokens, _, Tree.ofTokens_eq_ok_iff.mpr ⟨_, rfl, hwf, hfits, htokens⟩, ?_⟩
  -- nothing but its depth can be wrong with this tree
  have hread : ∃ e, UpTo ParseError.IsTooDeep
      (ofTree limits (.group none [Tree.deepest limits.maxDepth])) (.ok e) :=
    UpTo.exists_ok_bind (row_singleton_upTo (isOperand_deepest limits.maxDepth) limits 0) fun _ =>
      ⟨_, .refl _⟩
  obtain ⟨e, hok | ⟨cause, hcause, htooDeep⟩⟩ := hread
  · have hnests : Nests limits _ (ofTree limits (.group none [Tree.deepest limits.maxDepth])) :=
      ofTree_nests none _
    have hlevels := hnests.ok e hok
    rw [Tree.nestingAll, Tree.nestingAll, Limits.treeDepth] at hlevels
    have hnesting := Tree.nesting_deepest limits.maxDepth
    have hmany : limits.maxDepth * 5 ≤ limits.maxDepth * (limits.maxDepth + 3) :=
      Nat.mul_le_mul_left _ (by omega)
    omega
  · cases cause with
    | tooDeep limit => exact ⟨limit, htooDeep⟩
    | missingOperand _ _ => exact hcause.elim
    | unexpectedToken _ _ => exact hcause.elim

end Expr

/-! ## Where the limits agree -/

/-- Every tree that tokens are arranged in under a limit can be read under the same limit as far as
its depth goes, exactly if the limit is at most one. A tree `root` that is too deep to be read has
more levels than trees may have, but under a limit `m` never more than `m * (m + 3) / 2`; and two
functions stand directly in front of a bracket, unless there are more tokens than any limit. -/
theorem nesting_limits_agree_iff (limits : Limits) :
    ((∀ tokens root, Tree.ofTokens limits tokens = .ok root →
      ∀ limit, Expr.ofTree limits root ≠ .error (.tooDeep limit)) ↔ limits.maxDepth ≤ 1) ∧
    ∀ tokens root limit, Tree.ofTokens limits tokens = .ok root →
      Expr.ofTree limits root = .error (.tooDeep limit) →
      limit = limits.maxDepth ∧ limits.treeDepth < Tree.nestingAll root.items ∧
      2 * Tree.nestingAll root.items ≤ limits.maxDepth * (limits.maxDepth + 3) ∧
      (tokens.length ≤ Limits.ceiling →
        ∃ f g b, [f, g, b] <:+: tokens ∧ (∃ name, f.kind = .function name) ∧
          (∃ name, g.kind = .function name) ∧ b.kind = .openBracket) := by
  have hdeep : ∀ tokens root limit, Tree.ofTokens limits tokens = .ok root →
      Expr.ofTree limits root = .error (.tooDeep limit) →
      limit = limits.maxDepth ∧ limits.treeDepth < Tree.nestingAll root.items ∧
      2 * Tree.nestingAll root.items ≤ limits.maxDepth * (limits.maxDepth + 3) := by
    intro tokens root limit htree htooDeep
    obtain ⟨items, rfl, -, hfits, -⟩ := Tree.ofTokens_eq_ok_iff.mp htree
    obtain ⟨hlimit, hlevels⟩ := (Expr.ofTree_nests none items).tooDeep limit htooDeep
    exact ⟨hlimit, hlevels, Tree.nestingAll_le_of_fits items (Nat.zero_add _).symm hfits⟩
  refine ⟨⟨fun hagree => ?_, fun hsmall tokens root htree limit htooDeep => ?_⟩, ?_⟩
  · by_contra hsmall
    have hlarge : 2 ≤ limits.maxDepth := by omega
    obtain ⟨tokens, root, htree, limit, htooDeep⟩ := Expr.exists_ofTree_tooDeep hlarge
    exact hagree tokens root htree limit htooDeep
  · obtain ⟨-, hlevels, hbound⟩ := hdeep tokens root limit htree htooDeep
    have hfew : limits.maxDepth * (limits.maxDepth + 3) ≤ limits.maxDepth * 4 :=
      Nat.mul_le_mul_left _ (by omega)
    rw [Limits.treeDepth, Limits.ceiling] at hlevels
    omega
  · intro tokens root limit htree htooDeep
    obtain ⟨hlimit, hlevels, hbound⟩ := hdeep tokens root limit htree htooDeep
    refine ⟨hlimit, hlevels, hbound, fun hlength => ?_⟩
    obtain ⟨items, rfl, hwf, hfits, htokens⟩ := Tree.ofTokens_eq_ok_iff.mp htree
    rcases Tree.nestingAll_cases items hwf (Nat.zero_add _).symm hfits with hrow | hdouble
    · exact Tree.rowBeforeBracket_map_mark (htokens ▸ hrow)
    · have htotal := Tree.nestingAll_le_length items
      rw [htokens, List.length_map] at htotal
      rw [Limits.treeDepth, Tree.items] at hlevels
      omega

/-- The second function of the row stands at the last level for calls, and the bracket behind it
opens a level that has room for one more. -/
example : (compile ⟨2, 512⟩ "Sin-Sin(Sin(1))").map Expr.text = .error (.parse (.tooDeep 2)) := by
  decide +kernel

end Reckon
