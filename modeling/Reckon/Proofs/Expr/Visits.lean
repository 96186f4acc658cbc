import Reckon.Proofs.Expr.Cursor

/-!
# The first fault of a walk through a tree

A walk visits the trees of a level from left to right, and what is inside a tree before the tree
next to it. In each level it knows whether the next tree has to be an operand or comes behind one.
Whether a visited tree has a fault there can be told from the visit alone. A tree has no expression
exactly if there is a fault, and the first one is why (`ofTree_eq_error_iff_firstFault`).
-/

namespace Reckon

/-- A tree that a walk comes to. -/
structure Visit where
  tree : Tree
  /-- The number of groups and calls around the tree. -/
  depth : Nat
  /-- Whether the tree comes behind an operand of its level. -/
  afterOperand : Bool
  /-- Whether the tree is the last one of its level. -/
  isLast : Bool

namespace Tree

/-- Whether what comes next in a level comes behind an operand. -/
def afterOperand (behind : Bool) (t : Tree) : Bool :=
  !(behind && t.operator?.isSome)

mutual

/-- The visits inside a tree at level `depth`. -/
def visitsInside (depth : Nat) : Tree → List Visit
  | leaf _ => []
  | group _ items => visitsAll (depth + 1) false items
  | call _ argument =>
    ⟨argument, depth + 1, false, true⟩ :: visitsInside (depth + 1) argument
termination_by structural t => t

/-- The visits of the rest of a level, which comes behind an operand or not. -/
def visitsAll (depth : Nat) (behind : Bool) : List Tree → List Visit
  | [] => []
  | item :: rest =>
    ⟨item, depth, behind, rest.isEmpty⟩ ::
      (visitsInside depth item ++ visitsAll depth (item.afterOperand behind) rest)
termination_by structural items => items

end

/-- All visits of a walk. A group is the level itself, and anything else is the only tree of its
level. -/
def visits : Tree → List Visit
  | group _ items => visitsAll 0 false items
  | t => visitsAll 0 false [t]

/-- What is wrong with a tree at level `depth` as an operand. -/
def operandFault? (limits : Limits) (depth : Nat) (t : Tree) : Option ParseError :=
  let entering : Option ParseError :=
    if limits.treeDepth ≤ depth then some (.tooDeep limits.maxDepth) else none
  match t with
  | leaf token =>
    match token.kind with
    | .number _ | .var _ => none
    | _ => some t.unexpected
  | group _ _ => entering
  | call token _ =>
    match token.kind with
    | .function _ => entering
    | _ => some t.unexpected

end Tree

/-- What is wrong with a tree where a walk comes to it: behind an operand an operator has to have a
right operand, and everything else has to be an operand. -/
def Visit.fault? (limits : Limits) (v : Visit) : Option ParseError :=
  match v.afterOperand, v.tree.operator? with
  | true, some (token, _) =>
    if v.isLast then some (.missingOperand token.kind.name token.span) else none
  | _, _ => v.tree.operandFault? limits v.depth

namespace Expr

open Reckon.Tree (visitsInside visitsAll operandFault?)

variable {limits : Limits}

theorem findSome?_cons_eq_or {α β : Type} (f : α → Option β) (a : α) (as : List α) :
    (a :: as).findSome? f = (f a).or (as.findSome? f) := by
  rw [List.findSome?_cons]
  cases f a <;> rfl

theorem failure?_enter_bind {α : Type} {depth : Nat} {f : Nat → Except ParseError α} :
    failure? (enter limits depth >>= f) =
      (if limits.treeDepth ≤ depth then some (.tooDeep limits.maxDepth) else none).or
        (failure? (f (depth + 1))) := by
  rw [enter]
  split <;> rfl

theorem visitsInside_of_operator? {depth : Nat} {t : Tree} {operator : Token × Joint}
    (h : t.operator? = some operator) : visitsInside depth t = [] := by
  cases t with
  | leaf token => rfl
  | group opener items => contradiction
  | call function argument => contradiction

mutual

theorem failure?_operand (depth : Nat) (t : Tree) :
    failure? (operand limits depth t) =
      (t.operandFault? limits depth).or ((visitsInside depth t).findSome? (·.fault? limits)) := by
  match t with
  | .leaf token =>
    rw [operand, operandFault?]
    cases token.kind <;> rfl
  | .group opener items =>
    rw [operand, failure?_enter_bind, failure?_bind_ok, failure?_row]
    rfl
  | .call token argument =>
    rw [operand, operandFault?]
    cases token.kind with
    | function name =>
      dsimp only
      rw [failure?_enter_bind, failure?_bind_ok, failure?_operand, visitsInside,
        findSome?_cons_eq_or]
      rfl
    | _ => rfl
termination_by structural t

theorem failure?_row (depth : Nat) (items : List Tree) :
    failure? (row limits depth items) =
      (visitsAll depth false items).findSome? (·.fault? limits) := by
  match items with
  | [] => rfl
  | item :: rest =>
    rw [row, failure?_bind_bind_ok, failure?_operand, failure?_rowAfter,
      visitsAll, findSome?_cons_eq_or, List.findSome?_append, Option.or_assoc]
    rfl
termination_by structural items

theorem failure?_rowAfter (depth : Nat) (items : List Tree) :
    failure? (rowAfter limits depth items) =
      (visitsAll depth true items).findSome? (·.fault? limits) := by
  match items with
  | [] => rfl
  | item :: rest =>
    rw [rowAfter.eq_def]
    dsimp only
    cases hoperator : item.operator? with
    | none =>
      have hfault : Visit.fault? limits ⟨item, depth, true, rest.isEmpty⟩ =
          item.operandFault? limits depth := by simp [Visit.fault?, hoperator]
      dsimp only
      rw [failure?_bind_bind_ok, failure?_operand, failure?_rowAfter,
        visitsAll, findSome?_cons_eq_or, List.findSome?_append, hfault, Option.or_assoc,
        Tree.afterOperand, hoperator]
      rfl
    | some operator =>
      obtain ⟨token, joint⟩ := operator
      rw [visitsAll, findSome?_cons_eq_or, visitsInside_of_operator? hoperator, List.nil_append,
        Tree.afterOperand, hoperator]
      cases rest with
      | nil => simp [Visit.fault?, hoperator, failure?]
      | cons right rest =>
        have hfault : Visit.fault? limits ⟨item, depth, true, (right :: rest).isEmpty⟩ = none := by
          simp [Visit.fault?, hoperator]
        rw [hfault]
        dsimp only
        rw [failure?_bind_bind_ok, failure?_operand, failure?_rowAfter,
          Option.none_or, visitsAll, findSome?_cons_eq_or, List.findSome?_append, Option.or_assoc]
        rfl
termination_by structural items

end

/-- A tree fails to have an expression exactly at the first fault of the walk and because of it, and
it has one exactly if there is none. Reading by positions comes to the same, and no position
lies outside of its level. -/
theorem ofTree_eq_error_iff_firstFault (limits : Limits) (root : Tree) :
    (∀ cause, ofTree limits root = .error cause ↔
      root.visits.findSome? (·.fault? limits) = some cause) ∧
    ((∃ e, ofTree limits root = .ok e) ↔ root.visits.findSome? (·.fault? limits) = none) ∧
    ofTreeByPositions limits root = (ofTree limits root).mapError .failure := by
  have hfailure : failure? (ofTree limits root) =
      root.visits.findSome? (·.fault? limits) := by
    cases root with
    | group opener items => exact (failure?_bind_ok _ _).trans (failure?_row 0 items)
    | leaf token => exact (failure?_bind_ok _ _).trans (failure?_row 0 [.leaf token])
    | call token argument =>
      exact (failure?_bind_ok _ _).trans (failure?_row 0 [.call token argument])
  rw [← hfailure]
  exact ⟨fun _ => failure?_eq_some.symm, failure?_eq_none.symm, ofTreeByPositions_eq root⟩

end Expr

end Reckon
