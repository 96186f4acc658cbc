import Reckon.Tree.Fuse

/-!
# From tokens to trees

One pass over the tokens keeps the brackets that are open. A level is fused when its bracket closes,
so a bracket that is wrong inside a level is found before a function that is.
-/

namespace Reckon.Tree

/-- A level that is not finished yet while a bracket in it is open. -/
structure Level where
  /-- The open bracket. -/
  opener : Token
  /-- What stands in the level before that bracket, the last tree in front. -/
  before : List Tree

/-- Reads tokens inside the open brackets `levels`, the innermost one in front. `items` are the
trees of the current level so far, the last one in front. -/
def readTokens (maxDepth : Nat) (levels : List Level) (items : List Tree) :
    List Token → Except GroupError Tree
  | [] =>
    match levels with
    | level :: _ => .error (.unbalancedBrackets level.opener.span)
    | [] => do
      let fused ← fuse maxDepth 0 items.reverse
      return group none fused
  | t :: rest =>
    match t.kind with
    | .openBracket =>
      if maxDepth ≤ levels.length then .error (.tooDeep maxDepth t.span)
      else readTokens maxDepth (⟨t, items⟩ :: levels) [] rest
    | .closeBracket =>
      match levels with
      | [] => .error (.unbalancedBrackets t.span)
      | level :: outer => do
        let fused ← fuse maxDepth levels.length items.reverse
        readTokens maxDepth outer (group (some level.opener) fused :: level.before) rest
    | _ => readTokens maxDepth levels (leaf t :: items) rest

/-- The tree of a list of tokens: a group without a bracket. -/
def ofTokens (limits : Limits) (tokens : List Token) : Except GroupError Tree :=
  readTokens limits.maxDepth [] [] tokens

end Reckon.Tree
