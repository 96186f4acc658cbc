import Reckon.Proofs.Grammar.Derive
import Reckon.Proofs.Tree.Fits

/-!
# Levels that differ in one place

What stands behind an operand, up to the end of its level, can be exchanged at any depth of a tree:
where the two rests are read alike, fit alike and are both well-formed, so are the whole trees
(`Swaps.row_eq`). In the tokens of well-formed trees, every place behind an operand where a token
comes next is such a place (`swapsAt`).
-/

namespace Reckon

/-- Whether a token of a given kind can be the last one of an operand. -/
def Token.Kind.endsOperand : Token.Kind → Bool
  | number _ | var _ | closeBracket => true
  | _ => false

namespace Tree

/-- Whether two levels differ only in that somewhere, behind a tree that is no operator, a level of
the one goes on with `old` and that of the other with `new`. -/
inductive Swaps (old new : List Tree) : List Tree → List Tree → Prop where
  | here {left : Tree} (h : left.operator? = none) : Swaps old new (left :: old) (left :: new)
  | later (item : Tree) {items items' : List Tree} (h : Swaps old new items items') :
      Swaps old new (item :: items) (item :: items')
  | inside (row : List Token) (opener : Token) {items items' : List Tree}
      (h : Swaps old new items items') (after : List Tree) :
      Swaps old new (callAll row (group (some opener) items) :: after)
        (callAll row (group (some opener) items') :: after)

/-! ## Trees in the place of an argument -/

section CallAll

variable {t t' : Tree}

theorem wellFormed_callAll_congr (ht : t.WellFormed → t'.WellFormed) {row : List Token}
    (h : (callAll row t).WellFormed) : (callAll row t').WellFormed := by
  induction row generalizing t t' with
  | nil => exact ht h
  | cons f row ih =>
    have hcall : (call f t).WellFormed → (call f t').WellFormed := fun h => ⟨h.1, ht h.2⟩
    exact ih hcall h

theorem fits_callAll_congr {maxDepth depth : Nat}
    (ht : ∀ calls, t.Fits maxDepth depth calls → t'.Fits maxDepth depth calls) {row : List Token}
    {calls : Nat} (h : (callAll row t).Fits maxDepth depth calls) :
    (callAll row t').Fits maxDepth depth calls := by
  induction row generalizing t t' calls with
  | nil => exact ht calls h
  | cons f row ih =>
    have hcall : ∀ calls, (call f t).Fits maxDepth depth calls →
        (call f t').Fits maxDepth depth calls := fun calls h => ⟨h.1, ht (calls + 1) h.2⟩
    exact ih hcall h

theorem callAll_concat (row : List Token) (f : Token) :
    callAll (row ++ [f]) t = call f (callAll row t) := List.foldl_append

/-- Whether two trees are read alike wherever they stand. -/
structure ReadAlike (limits : Limits) (t t' : Tree) : Prop where
  operator? : t.operator? = t'.operator?
  joint : t.joint = t'.joint
  operand (depth : Nat) : Expr.operand limits depth t = Expr.operand limits depth t'

theorem readAlike_group {limits : Limits} {items items' : List Tree} (opener : Option Token)
    (h : ∀ depth, Expr.row limits depth items = Expr.row limits depth items') :
    ReadAlike limits (group opener items) (group opener items') :=
  ⟨rfl, rfl, fun depth => by simp only [Expr.operand, h]⟩

theorem ReadAlike.callAll {limits : Limits} (h : ReadAlike limits t t') (row : List Token) :
    ReadAlike limits (callAll row t) (callAll row t') := by
  induction row generalizing t t' with
  | nil => exact h
  | cons f row ih =>
    refine ih ⟨rfl, rfl, fun depth => ?_⟩
    simp only [Expr.operand, h.operand]
    rfl

end CallAll

/-! ## Levels that differ in one place are read alike -/

namespace Swaps

variable {old new items items' : List Tree}

theorem wellFormed (h : Swaps old new items items') (hnew : AllWellFormed old → AllWellFormed new)
    (hwf : AllWellFormed items) : AllWellFormed items' := by
  induction h with
  | here _ => exact ⟨hwf.1, hnew hwf.2⟩
  | later _ _ ih => exact ⟨hwf.1, ih hwf.2⟩
  | @inside row opener items items' _ _ ih =>
    have hgroup : (group (some opener) items).WellFormed →
        (group (some opener) items').WellFormed := fun h => ⟨h.1, ih h.2⟩
    exact ⟨wellFormed_callAll_congr hgroup hwf.1, hwf.2⟩

theorem fits {maxDepth depth : Nat} (h : Swaps old new items items')
    (hnew : ∀ depth, AllFit maxDepth depth old → AllFit maxDepth depth new)
    (hfits : AllFit maxDepth depth items) : AllFit maxDepth depth items' := by
  induction h generalizing depth with
  | here _ => exact ⟨hfits.1, hnew depth hfits.2⟩
  | later _ _ ih => exact ⟨hfits.1, ih hfits.2⟩
  | @inside row opener items items' _ _ ih =>
    have hgroup : ∀ calls, (group (some opener) items).Fits maxDepth depth calls →
        (group (some opener) items').Fits maxDepth depth calls := fun calls h => ⟨h.1, ih h.2⟩
    exact ⟨fits_callAll_congr hgroup hfits.1, hfits.2⟩

theorem ne_nil (h : Swaps old new items items') : items ≠ [] ∧ items' ≠ [] := by
  cases h <;> exact ⟨List.cons_ne_nil _ _, List.cons_ne_nil _ _⟩

end Swaps

end Tree

namespace Expr

open Reckon.Tree (Swaps ReadAlike)

variable {limits : Limits} {depth : Nat}

/-- An operator takes over the first operand of what comes after it. -/
theorem rowAfter_of_operator {t : Tree} {s : Token} {joint : Joint} {items : List Tree}
    (ht : t.operator? = some (s, joint)) (hitems : items ≠ []) :
    rowAfter limits depth (t :: items) =
      (row limits depth items).map (List.modifyHead fun part => (joint, part.2)) := by
  obtain ⟨right, rest, rfl⟩ := List.exists_cons_of_ne_nil hitems
  rw [rowAfter, row, ht]
  dsimp only
  cases operand limits depth right with
  | error cause => rfl
  | ok e => cases rowAfter limits depth rest <;> rfl

theorem rowAfter_of_operand {t : Tree} {items : List Tree} (ht : t.operator? = none) :
    rowAfter limits depth (t :: items) = (do
      let e ← operand limits depth t
      let others ← rowAfter limits depth items
      return (t.joint, e) :: others) := by
  rw [rowAfter, ht]

end Expr

namespace Tree

/-- Where the two rests are read alike behind an operand, so are the levels. -/
theorem Swaps.row_eq {limits : Limits} {old new items items' : List Tree}
    (h : Swaps old new items items')
    (hnew : ∀ depth, Expr.rowAfter limits depth old = Expr.rowAfter limits depth new)
    (depth : Nat) :
    Expr.row limits depth items = Expr.row limits depth items' ∧
      Expr.rowAfter limits depth items = Expr.rowAfter limits depth items' := by
  induction h generalizing depth with
  | here hleft =>
    rw [Expr.rowAfter_of_operand hleft, Expr.rowAfter_of_operand hleft, Expr.row, Expr.row, hnew]
    exact ⟨rfl, rfl⟩
  | later item h ih =>
    -- the first tree takes over the row if it is an operator, and the row after it if it is none
    obtain ⟨hrow, hafter⟩ := ih depth
    refine ⟨by rw [Expr.row, Expr.row, hafter], ?_⟩
    cases hop : item.operator? with
    | none => rw [Expr.rowAfter_of_operand hop, Expr.rowAfter_of_operand hop, hafter]
    | some found =>
      rw [Expr.rowAfter_of_operator hop h.ne_nil.1, Expr.rowAfter_of_operator hop h.ne_nil.2, hrow]
  | inside row opener h after ih =>
    have halike := (readAlike_group (some opener) fun depth => (ih depth).1).callAll row
    refine ⟨by rw [Expr.row, Expr.row, halike.operand], ?_⟩
    rw [Expr.rowAfter.eq_def, Expr.rowAfter.eq_def]
    dsimp only
    rw [halike.operator?, halike.joint, halike.operand]

/-! ## Places behind an operand -/

/-- Whether the last one of some tokens ends an operand. -/
def EndsOperand (marks : List (Option Token)) : Prop :=
  ∃ last ∈ marks.getLast?, ∀ s ∈ last, s.kind.endsOperand = true

theorem EndsOperand.ne_nil {marks : List (Option Token)} (h : EndsOperand marks) : marks ≠ [] := by
  rintro rfl
  obtain ⟨last, hlast, -⟩ := h
  contradiction

theorem EndsOperand.of_append {before marks : List (Option Token)}
    (h : EndsOperand (before ++ marks)) (hne : marks ≠ []) : EndsOperand marks := by
  obtain ⟨last, hlast, hends⟩ := h
  rw [List.getLast?_append, List.getLast?_eq_some_getLast hne, Option.some_or] at hlast
  exact ⟨last, List.getLast?_eq_some_getLast hne ▸ hlast, hends⟩

/-- Behind a token that ends no operand there is more. -/
theorem EndsOperand.of_cons {s : Token} {marks : List (Option Token)}
    (h : EndsOperand (some s :: marks)) (hs : s.kind.endsOperand = false) : EndsOperand marks := by
  have happend : EndsOperand ([some s] ++ marks) := h
  refine happend.of_append ?_
  rintro rfl
  obtain ⟨last, hlast, hends⟩ := h
  obtain rfl := Option.some.inj hlast
  rw [hends s rfl] at hs
  contradiction

theorem operator?_of_endsOperand {t : Tree} (h : EndsOperand t.flatten) : t.operator? = none := by
  cases hop : t.operator? with
  | none => rfl
  | some found =>
    obtain ⟨rfl, hkind⟩ := Grammar.operator?_eq_some hop
    obtain ⟨last, hlast, hends⟩ := h
    obtain rfl := Option.some.inj hlast
    have hends := hends found.1 rfl
    rcases hkind with ⟨hkind, -⟩ | ⟨hkind, -⟩ | ⟨hkind, -⟩ <;> rw [hkind] at hends <;> contradiction

/-- Whether some tokens go on with one that is no closing bracket. -/
def GoesOn (marks : List (Option Token)) : Prop := ∃ s, marks.head? = some (some s)

theorem not_goesOn_nil : ¬GoesOn [] := nofun

theorem not_goesOn_none (marks : List (Option Token)) : ¬GoesOn (none :: marks) := nofun

theorem GoesOn.of_append {marks after : List (Option Token)} (h : GoesOn (marks ++ after))
    (hafter : ¬GoesOn after) : GoesOn marks := by
  cases marks with
  | nil => exact absurd h hafter
  | cons mark marks => exact h

/-- Whether the tokens of a level can be exchanged from a place on up to the end of a level. -/
def SwapsAt (items : List Tree) (before marks : List (Option Token)) : Prop :=
  ∃ old after, AllWellFormed old ∧ marks = flattenAll old ++ after ∧ ¬GoesOn after ∧
    ∀ new, ∃ items', Swaps old new items items' ∧
      flattenAll items' = before ++ (flattenAll new ++ after)

namespace SwapsAt

variable {items : List Tree} {before marks : List (Option Token)}

theorem here {left : Tree} (h : EndsOperand left.flatten) (hwf : AllWellFormed items) :
    SwapsAt (left :: items) left.flatten (flattenAll items) :=
  ⟨items, [], hwf, (List.append_nil _).symm, not_goesOn_nil,
    fun new => ⟨left :: new, .here (operator?_of_endsOperand h), by rw [List.append_nil]; rfl⟩⟩

theorem later (h : SwapsAt items before marks) (item : Tree) :
    SwapsAt (item :: items) (item.flatten ++ before) marks := by
  obtain ⟨old, after, hwf, hmarks, hafter, hnew⟩ := h
  refine ⟨old, after, hwf, hmarks, hafter, fun new => ?_⟩
  obtain ⟨items', hswaps, hflat⟩ := hnew new
  exact ⟨item :: items', hswaps.later item, by rw [flattenAll, hflat, List.append_assoc]⟩

theorem inside (h : SwapsAt items before marks) (row : List Token) (opener : Token)
    (rest : List Tree) : SwapsAt (callAll row (group (some opener) items) :: rest)
      (row.reverse.map some ++ some opener :: before) (marks ++ none :: flattenAll rest) := by
  obtain ⟨old, after, hwf, rfl, hafter, hnew⟩ := h
  refine ⟨old, after ++ none :: flattenAll rest, hwf, List.append_assoc _ _ _, fun hgoes => ?_,
    fun new => ?_⟩
  · exact hafter (hgoes.of_append (not_goesOn_none _))
  · obtain ⟨items', hswaps, hflat⟩ := hnew new
    refine ⟨_, hswaps.inside row opener rest, ?_⟩
    simp [flattenAll, flatten_callAll, flatten, hflat]

end SwapsAt

mutual

/-- A place inside a tree that lies behind an operand, with more to come, is a place in the level of
a group. -/
theorem exists_swapsAt (t : Tree) {before marks : List (Option Token)} (hwf : t.WellFormed)
    (h : t.flatten = before ++ marks) (hbefore : EndsOperand before) (hmarks : GoesOn marks) :
    ∃ row opener items before' marks', t = callAll row (group (some opener) items) ∧
      before = row.reverse.map some ++ some opener :: before' ∧ marks = marks' ++ [none] ∧
      SwapsAt items before' marks' := by
  obtain ⟨first, before, rfl⟩ := List.exists_cons_of_ne_nil hbefore.ne_nil
  match t with
  | leaf token =>
    -- a single token has no place inside
    simp only [flatten, List.cons_append, List.cons.injEq, List.nil_eq, List.append_eq_nil_iff] at h
    obtain ⟨-, -, rfl⟩ := h
    exact absurd hmarks not_goesOn_nil
  | group opener items =>
    obtain ⟨⟨o, rfl, ho⟩, hwf⟩ := hwf
    simp only [flatten, Option.map_some, Option.toList_some, List.cons_append, List.nil_append,
      List.cons.injEq] at h
    obtain ⟨rfl, h⟩ := h
    have hbefore := hbefore.of_cons (by rw [ho]; rfl)
    rcases List.append_eq_append_iff.mp h with ⟨inner, -, hnone⟩ | ⟨inner, hinner, rfl⟩
    · -- the closing bracket is all that is left of the group, or nothing is
      have hgoes : ¬GoesOn (inner ++ marks) := hnone ▸ not_goesOn_none []
      cases inner with
      | nil => exact absurd hmarks hgoes
      | cons mark inner =>
        obtain ⟨-, hnil⟩ := List.cons.inj hnone
        obtain ⟨-, rfl⟩ := List.append_eq_nil_iff.mp hnil.symm
        exact absurd hmarks not_goesOn_nil
    · have hgoes := hmarks.of_append (not_goesOn_none [])
      exact ⟨[], o, items, before, inner, rfl, rfl, rfl, swapsAt items hwf hinner hbefore hgoes⟩
  | call f argument =>
    obtain ⟨⟨name, hname⟩, hwf⟩ := hwf
    simp only [flatten, List.cons_append, List.cons.injEq] at h
    obtain ⟨rfl, h⟩ := h
    have hbefore := hbefore.of_cons (by rw [hname]; rfl)
    obtain ⟨row, opener, items, before', marks', rfl, rfl, rfl, hswaps⟩ :=
      exists_swapsAt argument hwf h hbefore hmarks
    exact ⟨row ++ [f], opener, items, before', marks', (callAll_concat row f).symm, by simp, rfl,
      hswaps⟩
termination_by structural t

theorem swapsAt (items : List Tree) {before marks : List (Option Token)}
    (hwf : AllWellFormed items) (h : flattenAll items = before ++ marks)
    (hbefore : EndsOperand before) (hmarks : GoesOn marks) : SwapsAt items before marks := by
  match items with
  | [] => exact absurd (List.append_eq_nil_iff.mp h.symm).1 hbefore.ne_nil
  | item :: items =>
    -- the place lies behind the first tree or inside it; at its end, it is the one looked for
    rcases List.append_eq_append_iff.mp h with ⟨behind, rfl, hbehind⟩ | ⟨inner, hinner, rfl⟩
    · by_cases hnil : behind = []
      · subst hnil
        rw [List.append_nil] at hbefore ⊢
        rw [List.nil_append] at hbehind
        exact hbehind ▸ .here hbefore hwf.2
      · exact (swapsAt items hwf.2 hbehind (hbefore.of_append hnil) hmarks).later item
    · by_cases hnil : inner = []
      · subst hnil
        rw [List.append_nil] at hinner
        exact hinner ▸ .here (hinner ▸ hbefore) hwf.2
      · obtain ⟨mark, inner, rfl⟩ := List.exists_cons_of_ne_nil hnil
        obtain ⟨row, opener, level, before', marks', rfl, rfl, heq, hswaps⟩ :=
          exists_swapsAt item hwf.1 hinner hbefore hmarks
        rw [heq, List.append_assoc]
        exact hswaps.inside row opener items
termination_by structural items

end

end Tree

end Reckon
