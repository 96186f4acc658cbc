import Reckon.Calculate
import Reckon.Proofs.Outcome

/-!
# Compiling under larger limits

A larger nesting limit changes nothing but depth errors: whatever else compiling a line comes to, it
comes to under all larger limits (`compile_upTo`).
-/

namespace Reckon

namespace Tree

variable {maxDepth maxDepth' : Nat}

theorem fuseAfter_upTo (hle : maxDepth ≤ maxDepth') (depth : Nat) (row : List Token)
    (items : List Tree) :
    UpTo GroupError.IsTooDeep (fuseAfter maxDepth depth row items)
      (fuseAfter maxDepth' depth row items) := by
  induction items generalizing row with
  | nil => exact .refl _
  | cons item rest ih =>
    rw [fuseAfter, fuseAfter]
    split
    · rename_i function _
      by_cases hdepth : maxDepth ≤ depth + row.length
      · rw [if_pos hdepth]
        exact .of_error trivial _
      · rw [if_neg hdepth, if_neg (by omega)]
        exact ih (function :: row)
    · exact (ih []).bind fun fused => .refl _

theorem readTokens_upTo (hle : maxDepth ≤ maxDepth') (levels : List Level) (items : List Tree)
    (tokens : List Token) :
    UpTo GroupError.IsTooDeep (readTokens maxDepth levels items tokens)
      (readTokens maxDepth' levels items tokens) := by
  induction tokens generalizing levels items with
  | nil =>
    cases levels with
    | nil => exact (fuseAfter_upTo hle 0 [] items.reverse).bind fun fused => .refl _
    | cons level outer => exact .refl _
  | cons t rest ih =>
    rw [readTokens.eq_def, readTokens.eq_def maxDepth']
    dsimp only
    split
    · by_cases hdepth : maxDepth ≤ levels.length
      · rw [if_pos hdepth]
        exact .of_error trivial _
      · rw [if_neg hdepth, if_neg (by omega)]
        exact ih _ _
    · cases levels with
      | nil => exact .refl _
      | cons level outer =>
        exact (fuseAfter_upTo hle _ [] items.reverse).bind fun fused => ih _ _
    · exact ih _ _

end Tree

namespace Expr

variable {limits limits' : Limits}

theorem enter_upTo (hle : limits.maxDepth ≤ limits'.maxDepth) (depth : Nat) :
    UpTo ParseError.IsTooDeep (enter limits depth) (enter limits' depth) := by
  have htree : limits.treeDepth ≤ limits'.treeDepth := by
    rw [Limits.treeDepth, Limits.treeDepth]
    omega
  rw [enter, enter]
  by_cases hdepth : limits.treeDepth ≤ depth
  · rw [if_pos hdepth]
    exact .of_error trivial _
  · rw [if_neg hdepth, if_neg (by omega)]
    exact .refl _

mutual

theorem operand_upTo (hle : limits.maxDepth ≤ limits'.maxDepth) (depth : Nat) (t : Tree) :
    UpTo ParseError.IsTooDeep (operand limits depth t) (operand limits' depth t) := by
  match t with
  | .leaf token => exact .refl _
  | .group opener items =>
    exact (enter_upTo hle depth).bind fun below =>
      (row_upTo hle below items).bind fun row => .refl _
  | .call token argument =>
    rw [operand, operand]
    split
    · exact (enter_upTo hle depth).bind fun below =>
        (operand_upTo hle below argument).bind fun e => .refl _
    · exact .refl _
termination_by structural t

theorem row_upTo (hle : limits.maxDepth ≤ limits'.maxDepth) (depth : Nat) (items : List Tree) :
    UpTo ParseError.IsTooDeep (row limits depth items) (row limits' depth items) := by
  match items with
  | [] => exact .refl _
  | item :: rest =>
    exact (operand_upTo hle depth item).bind fun e =>
      (rowAfter_upTo hle depth rest).bind fun others => .refl _
termination_by structural items

theorem rowAfter_upTo (hle : limits.maxDepth ≤ limits'.maxDepth) (depth : Nat)
    (items : List Tree) :
    UpTo ParseError.IsTooDeep (rowAfter limits depth items) (rowAfter limits' depth items) := by
  match items with
  | [] => exact .refl _
  | item :: rest =>
    rw [rowAfter.eq_def limits, rowAfter.eq_def limits']
    dsimp only
    cases item.operator? with
    | none =>
      exact (operand_upTo hle depth item).bind fun e =>
        (rowAfter_upTo hle depth rest).bind fun others => .refl _
    | some operator =>
      cases rest with
      | nil => exact .refl _
      | cons right rest =>
        exact (operand_upTo hle depth right).bind fun e =>
          (rowAfter_upTo hle depth rest).bind fun others => .refl _
termination_by structural items

end

theorem ofTree_upTo (hle : limits.maxDepth ≤ limits'.maxDepth) (root : Tree) :
    UpTo ParseError.IsTooDeep (ofTree limits root) (ofTree limits' root) := by
  cases root with
  | group opener items => exact (row_upTo hle 0 items).bind fun row => .refl _
  | leaf token => exact (row_upTo hle 0 [.leaf token]).bind fun row => .refl _
  | call function argument =>
    exact (row_upTo hle 0 [.call function argument]).bind fun row => .refl _

end Expr

/-- Whatever a line compiles to, it compiles to under larger limits, unless it nests too deep. -/
theorem compile_upTo {limits limits' : Limits} (hle : limits.maxDepth ≤ limits'.maxDepth)
    (line : String) : UpTo Error.IsTooDeep (compile limits line) (compile limits' line) := by
  rw [compile, compile]
  refine (UpTo.refl _).bind fun tokens => ?_
  refine UpTo.bind ((Tree.readTokens_upTo hle [] [] tokens).mapError fun _ h => h) fun tree => ?_
  exact (Expr.ofTree_upTo hle tree).mapError fun _ h => h

end Reckon
