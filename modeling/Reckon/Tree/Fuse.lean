import Reckon.Error
import Reckon.Limits
import Reckon.Tree.Basic

/-!
# Giving functions their arguments

In a list of trees each function takes the tree after it as its argument; a row of functions nests.
The calls of a row count as levels on top of the level that the list lies at.
-/

namespace Reckon.Tree

/-- Calls the functions of a row on an argument, the last function first. `row` has the last
function in front. -/
def callAll (row : List Token) (argument : Tree) : Tree :=
  row.foldl (fun inner function => call function inner) argument

/-- Fuses a list of trees at level `depth`, where the functions of `row`, the last one in front,
stand directly before it. -/
def fuseAfter (maxDepth depth : Nat) (row : List Token) :
    List Tree → Except GroupError (List Tree)
  | [] =>
    match row with
    | [] => .ok []
    | last :: _ => .error (.missingArgument last.kind.name last.span)
  | item :: rest =>
    match item.function? with
    | some function =>
      if maxDepth ≤ depth + row.length then .error (.tooDeep maxDepth function.span)
      else fuseAfter maxDepth depth (function :: row) rest
    | none => do
      let fused ← fuseAfter maxDepth depth [] rest
      return callAll row item :: fused

/-- Replaces each function and the tree after it by a call, in a list that lies at level `depth`.
The trees inside the list stay as they are. -/
def fuse (maxDepth depth : Nat) (items : List Tree) : Except GroupError (List Tree) :=
  fuseAfter maxDepth depth [] items

end Reckon.Tree
