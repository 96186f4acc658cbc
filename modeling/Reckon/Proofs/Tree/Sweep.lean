import Reckon.Proofs.Tree.Flatten
import Reckon.Proofs.Tree.Rows

/-!
# The first fault of a sweep over tokens

A sweep goes over tokens from left to right and keeps the open brackets on a stack. Where it comes
to a place, it may meet an event there: a bracket that nests too deep, a bracket without its
partner, or the end of a level whose row of functions has a fault. Tokens fail to make a tree
exactly if there is an event, and the first one is why (`ofTokens_eq_error_iff_firstEvent`).
-/

namespace Reckon.Tree

/-- What a sweep has met in the levels that are open. The row of a level has its functions, and
`none` for everything else in it, where a pair of brackets is one thing. -/
structure Sweep where
  /-- The open brackets, the innermost one in front, each with what is before it in its level. -/
  stack : List (Token × List (Option Token))
  /-- What is in the innermost level. -/
  row : List (Option Token)

namespace Sweep

/-- Before the first token. -/
def start : Sweep := ⟨[], []⟩

/-- Goes over one token. -/
def step (s : Sweep) (t : Token) : Sweep :=
  match t.kind with
  | .openBracket => ⟨(t, s.row) :: s.stack, []⟩
  | .closeBracket =>
    match s.stack with
    | (_, before) :: outer => ⟨outer, before ++ [none]⟩
    | [] => s
  | .function _ => { s with row := s.row ++ [some t] }
  | _ => { s with row := s.row ++ [none] }

/-- The event at the place that a sweep has come to, with `rest` still to come. -/
def event? (maxDepth : Nat) (s : Sweep) (rest : List Token) : Option GroupError :=
  match rest with
  | [] =>
    match s.stack with
    | (opener, _) :: _ => some (.unbalancedBrackets opener.span)
    | [] => rowFault? maxDepth maxDepth s.row
  | t :: _ =>
    match t.kind with
    | .openBracket => if maxDepth ≤ s.stack.length then some (.tooDeep maxDepth t.span) else none
    | .closeBracket =>
      if s.stack.isEmpty then some (.unbalancedBrackets t.span)
      else rowFault? maxDepth (maxDepth - s.stack.length) s.row
    | _ => none

/-- The event at the first of all places of some tokens where there is one. -/
def firstEvent? (maxDepth : Nat) (s : Sweep) (tokens : List Token) : Option GroupError :=
  (List.range (tokens.length + 1)).findSome? fun place =>
    ((tokens.take place).foldl step s).event? maxDepth (tokens.drop place)

theorem firstEvent?_nil (maxDepth : Nat) (s : Sweep) :
    s.firstEvent? maxDepth [] = s.event? maxDepth [] := by
  simp [firstEvent?]

/-- An event right here comes before those behind the next token. -/
theorem firstEvent?_cons (maxDepth : Nat) (s : Sweep) (t : Token) (rest : List Token) :
    s.firstEvent? maxDepth (t :: rest) =
      (s.event? maxDepth (t :: rest)).or ((s.step t).firstEvent? maxDepth rest) := by
  rw [firstEvent?, List.length_cons, List.range_succ_eq_map, List.findSome?_cons,
    List.findSome?_map]
  cases h : event? maxDepth s (t :: rest) <;> simp [h, firstEvent?, Function.comp_def]

/-! ## The levels of the sweep -/

/-- The sweep that has met the open levels and the trees of the current one. -/
def ofLevels (levels : List Level) (items : List Tree) : Sweep :=
  ⟨levels.map fun level => (level.opener, level.before.reverse.map function?),
    items.reverse.map function?⟩

section

variable {maxDepth : Nat} {levels : List Level} {items : List Tree} {t : Token}

theorem step_openBracket (h : t.kind = .openBracket) :
    (ofLevels levels items).step t = ofLevels (⟨t, items⟩ :: levels) [] := by
  simp [step, h, ofLevels]

theorem step_closeBracket {level : Level} (fused : List Tree) (h : t.kind = .closeBracket) :
    (ofLevels (level :: levels) items).step t =
      ofLevels levels (group (some level.opener) fused :: level.before) := by
  simp [step, h, ofLevels, function?]

theorem step_leaf (hopen : t.kind ≠ .openBracket) (hclose : t.kind ≠ .closeBracket) :
    (ofLevels levels items).step t = ofLevels levels (leaf t :: items) := by
  rw [step]
  split
  · contradiction
  · contradiction
  · rename_i name hname
    simp [ofLevels, function?_leaf hname]
  · rename_i hfunction
    have hnone : (leaf t).function? = none := by
      rw [function?]
      split
      · rename_i name hname
        exact absurd hname (hfunction name)
      · rfl
    simp [ofLevels, hnone]

theorem event?_leaf (s : Sweep) (rest : List Token) (hopen : t.kind ≠ .openBracket)
    (hclose : t.kind ≠ .closeBracket) : s.event? maxDepth (t :: rest) = none := by
  rw [event?]
  split
  · contradiction
  · contradiction
  · rfl

end

end Sweep

/-! ## Reading meets what the sweep meets -/

/-- Reading tokens fails exactly for the first event of the sweep over them. -/
theorem failure?_readTokens {maxDepth : Nat} {levels : List Level} {items : List Tree}
    (tokens : List Token) (hdepth : levels.length ≤ maxDepth) :
    failure? (readTokens maxDepth levels items tokens) =
      (Sweep.ofLevels levels items).firstEvent? maxDepth tokens := by
  induction tokens generalizing levels items with
  | nil =>
    rw [Sweep.firstEvent?_nil]
    cases levels with
    | cons level levels => rfl
    | nil =>
      have hfuse := failure?_fuse items.reverse (Nat.zero_le maxDepth)
      exact (failure?_bind_ok _ _).trans hfuse
  | cons t rest ih =>
    rw [Sweep.firstEvent?_cons]
    by_cases hopen : t.kind = .openBracket
    · have hevent : (Sweep.ofLevels levels items).event? maxDepth (t :: rest) =
          if maxDepth ≤ levels.length then some (.tooDeep maxDepth t.span) else none := by
        simp [Sweep.event?, hopen, Sweep.ofLevels]
      rw [readTokens_openBracket hopen, hevent, Sweep.step_openBracket hopen]
      split
      · rfl
      · exact ih (by rw [List.length_cons]; omega)
    · by_cases hclose : t.kind = .closeBracket
      · cases levels with
        | nil =>
          have hevent : (Sweep.ofLevels [] items).event? maxDepth (t :: rest) =
              some (.unbalancedBrackets t.span) := by
            simp [Sweep.event?, hclose, Sweep.ofLevels]
          rw [readTokens_closeBracket_nil hclose, hevent]
          rfl
        | cons level levels =>
          have hevent : (Sweep.ofLevels (level :: levels) items).event? maxDepth (t :: rest) =
              rowFault? maxDepth (maxDepth - (level :: levels).length)
                (items.reverse.map function?) := by
            simp [Sweep.event?, hclose, Sweep.ofLevels]
          have houter : levels.length ≤ maxDepth := by
            rw [List.length_cons] at hdepth
            omega
          rw [readTokens_closeBracket_cons hclose, hevent, ← failure?_fuse _ hdepth]
          refine failure?_bind fun fused => ?_
          rw [Sweep.step_closeBracket fused hclose]
          exact ih houter
      · rw [readTokens_leaf hopen hclose, Sweep.event?_leaf _ _ hopen hclose,
          Sweep.step_leaf hopen hclose]
        exact ih hdepth

/-- Tokens fail to make a tree exactly at the first event of the sweep over them and because of it,
and they make a tree exactly if there is none. -/
theorem ofTokens_eq_error_iff_firstEvent (limits : Limits) (tokens : List Token) :
    (∀ cause, ofTokens limits tokens = .error cause ↔
      Sweep.start.firstEvent? limits.maxDepth tokens = some cause) ∧
    ((∃ root, ofTokens limits tokens = .ok root) ↔
      Sweep.start.firstEvent? limits.maxDepth tokens = none) := by
  have hread : failure? (ofTokens limits tokens) =
      Sweep.start.firstEvent? limits.maxDepth tokens :=
    failure?_readTokens tokens (Nat.zero_le _)
  rw [← hread]
  exact ⟨fun _ => failure?_eq_some.symm, failure?_eq_none.symm⟩

/-- In `(f f f x) f` the level of the bracket closes before the end is reached, and under a limit of
two its second function is the first that is too deep. -/
example :
    let f (n : Nat) : Token := .plain (.function "F") ⟨n, n + 1⟩
    Sweep.start.firstEvent? 2 [.plain .openBracket ⟨0, 1⟩, f 1, f 2, f 3, .plain (.var "x") ⟨4, 5⟩,
      .plain .closeBracket ⟨5, 6⟩, f 6] = some (.tooDeep 2 ⟨2, 3⟩) := by decide

end Reckon.Tree
