import Reckon.Error
import Reckon.Expr.Joint
import Reckon.Limits
import Reckon.Tree.Basic

/-!
# From trees to expressions

The trees of a level are read from left to right: an operand, then either an operator and its right
operand or a further operand. Whether the further operand adds or multiplies is told by its sign:
one with a sign before it opens a new term. The first fault met from left to right is reported, and
the trees inside a group or call are read before what comes after it.
-/

namespace Reckon

namespace Tree

/-- The operator that a tree is and how it joins its right operand. -/
def operator? : Tree → Option (Token × Joint)
  | leaf token =>
    match token.kind with
    | .times => some (token, .multiplies)
    | .divide => some (token, .divides)
    | .power => some (token, .raises)
    | _ => none
  | _ => none

/-- How a tree that should have been an operand is reported. -/
def unexpected (t : Tree) : ParseError :=
  let name :=
    match t with
    | leaf token | call token _ => token.kind.name
    | group _ _ => "("
  .unexpectedToken name t.span

/-- How an operand is joined that follows another one without an operator. -/
def joint (t : Tree) : Joint := if t.explicitSign then .adds else .multiplies

end Tree

namespace Expr

/-- Goes one level down, unless the levels are used up. -/
def enter (limits : Limits) (depth : Nat) : Except ParseError Nat :=
  if limits.treeDepth ≤ depth then .error (.tooDeep limits.maxDepth) else .ok (depth + 1)

mutual

/-- The operand that a tree at level `depth` stands for. -/
def operand (limits : Limits) (depth : Nat) : Tree → Except ParseError Expr
  | .leaf token =>
    match token.kind with
    | .number value => .ok (literal value token.sign)
    | .var name => .ok (var name token.sign)
    | _ => .error (Tree.leaf token).unexpected
  | .group opener items => do
    let below ← enter limits depth
    let row ← row limits below items
    return sum (assemble row) ((opener.map Token.sign).getD .positive)
  | .call token argument =>
    match token.kind with
    | .function name => do
      let below ← enter limits depth
      let e ← operand limits below argument
      return call name e token.sign
    | _ => .error (Tree.call token argument).unexpected
termination_by structural t => t

/-- The joined operands of a whole level. -/
def row (limits : Limits) (depth : Nat) : List Tree → Except ParseError (List (Joint × Expr))
  | [] => .ok []
  | item :: rest => do
    let e ← operand limits depth item
    let others ← rowAfter limits depth rest
    return (.adds, e) :: others
termination_by structural items => items

/-- The joined operands of the rest of a level, after an operand. -/
def rowAfter (limits : Limits) (depth : Nat) :
    List Tree → Except ParseError (List (Joint × Expr))
  | [] => .ok []
  | item :: rest =>
    match item.operator? with
    | some (token, joint) =>
      match rest with
      | [] => .error (.missingOperand token.kind.name token.span)
      | right :: rest => do
        let e ← operand limits depth right
        let others ← rowAfter limits depth rest
        return (joint, e) :: others
    | none => do
      let e ← operand limits depth item
      let others ← rowAfter limits depth rest
      return (item.joint, e) :: others
termination_by structural items => items

end

/-- The expression of a tree: a sum, whatever the tree is. A group is the level itself, and anything
else is the only tree of its level. -/
def ofTree (limits : Limits) (root : Tree) : Except ParseError Expr :=
  match root with
  | .group _ items => do
    let row ← row limits 0 items
    return sum (assemble row) root.sign
  | _ => do
    let row ← row limits 0 [root]
    return sum (assemble row) .positive

end Expr

end Reckon
