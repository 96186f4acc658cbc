import Reckon.Proofs.Outcome
import Reckon.Tree.Fuse

/-!
# Rows with functions

The functions that stand next to each other in a level are a run. Fusing a level fails at the first
function that the leftmost run has too many, and where no run has too many it fails if the level
ends in a function (`failure?_fuse`).
-/

namespace Reckon.Tree

/-- The first fault of a level where each run of functions may be `room` long. Of what stands in the
level the row has the functions, and `none` for everything else. -/
def rowFault? (limit room : Nat) (row : List (Option Token)) : Option GroupError :=
  match (row.splitOnP Option.isNone).find? (room < ·.length) with
  | some run => run[room]?.join.map fun f => .tooDeep limit f.span
  | none => row.getLast?.join.map fun f => .missingArgument f.kind.name f.span

/-! ## The first run of a row -/

section Runs

variable {limit room : Nat} {run : List Token} {row : List (Option Token)}

/-- The functions in front belong to the first run. -/
theorem splitOnP_run_append (run : List Token) (row : List (Option Token)) :
    (run.map some ++ row).splitOnP Option.isNone =
      (row.splitOnP Option.isNone).modifyHead (run.map some ++ ·) := by
  induction run with
  | nil => exact (congrFun List.modifyHead_id _).symm
  | cons f run ih =>
    rw [List.map_cons, List.cons_append, List.splitOnP_cons_eq_if_modifyHead, ih,
      List.modifyHead_modifyHead]
    rfl

/-- A row of functions only lacks an argument at its end. -/
theorem rowFault?_run (hrun : run.length ≤ room) :
    rowFault? limit room (run.map some) =
      run.getLast?.map fun f => .missingArgument f.kind.name f.span := by
  have hsplit : (run.map some).splitOnP Option.isNone = [run.map some] :=
    List.splitOnP_eq_singleton (by simp)
  have hfind : [run.map some].find? (room < ·.length) = none := by simpa using hrun
  rw [rowFault?, hsplit, hfind, List.getLast?_map]
  cases run.getLast? <;> rfl

/-- A run that is not too long does not matter if it has an argument. -/
theorem rowFault?_run_none (hrun : run.length ≤ room) :
    rowFault? limit room (run.map some ++ none :: row) = rowFault? limit room row := by
  have hsplit : (run.map some ++ none :: row).splitOnP Option.isNone =
      run.map some :: row.splitOnP Option.isNone :=
    List.splitOnP_append_cons_of_forall_mem (by simp) none rfl row
  have hfind : (run.map some :: row.splitOnP Option.isNone).find? (room < ·.length) =
      (row.splitOnP Option.isNone).find? (room < ·.length) :=
    List.find?_cons_of_neg (by simpa using hrun)
  have hlast : (run.map some ++ none :: row).getLast?.join = row.getLast?.join := by
    rw [List.getLast?_append, List.getLast?_cons]
    cases row.getLast? <;> rfl
  rw [rowFault?, hsplit, hfind, hlast]
  rfl

/-- The first function that a run in front has too many is the fault. -/
theorem rowFault?_run_some (hrun : run.length = room) (f : Token) :
    rowFault? limit room (run.map some ++ some f :: row) = some (.tooDeep limit f.span) := by
  obtain ⟨front, others, hothers⟩ := List.exists_cons_of_ne_nil (List.splitOnP_ne_nil _ row)
  have hsplit : (run.map some ++ some f :: row).splitOnP Option.isNone =
      (run.map some ++ some f :: front) :: others := by
    have := splitOnP_run_append (run ++ [f]) row
    rw [hothers] at this
    simpa using this
  have hfind : ((run.map some ++ some f :: front) :: others).find? (room < ·.length) =
      some (run.map some ++ some f :: front) := List.find?_cons_of_pos (by simp; omega)
  rw [rowFault?, hsplit, hfind]
  simp [← hrun]

end Runs

/-! ## Fusing -/

/-- Why fusing fails with the functions of `row` directly before the level. -/
theorem failure?_fuseAfter {maxDepth depth : Nat} {row : List Token} (items : List Tree)
    (hrow : depth + row.length ≤ maxDepth) :
    failure? (fuseAfter maxDepth depth row items) =
      rowFault? maxDepth (maxDepth - depth) (row.reverse.map some ++ items.map function?) := by
  induction items generalizing row with
  | nil =>
    rw [List.map_nil, List.append_nil, rowFault?_run (by rw [List.length_reverse]; omega),
      List.getLast?_reverse]
    cases row <;> rfl
  | cons item rest ih =>
    rw [List.map_cons, fuseAfter]
    cases hitem : item.function? with
    | some f =>
      dsimp only
      split
      · rw [rowFault?_run_some (by rw [List.length_reverse]; omega)]
        rfl
      · rw [ih (by rw [List.length_cons]; omega)]
        simp
    | none =>
      rw [rowFault?_run_none (by rw [List.length_reverse]; omega)]
      dsimp only
      have hrow' : depth + ([] : List Token).length ≤ maxDepth := by simp; omega
      have hrest := ih hrow'
      rw [List.reverse_nil, List.map_nil, List.nil_append] at hrest
      rw [← hrest]
      exact failure?_bind_ok _ _

/-- Fusing a level fails exactly for the first fault of its row of functions. -/
theorem failure?_fuse {maxDepth depth : Nat} (items : List Tree) (hdepth : depth ≤ maxDepth) :
    failure? (fuse maxDepth depth items) =
      rowFault? maxDepth (maxDepth - depth) (items.map function?) :=
  failure?_fuseAfter items hdepth

end Reckon.Tree
