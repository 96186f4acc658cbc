import Reckon.Proofs.Tree.Flatten
import Reckon.Proofs.Tree.Rows

/-!
# Levels with their functions fused

Fusing a level goes from one run of functions to the next. It calls the functions of a run on the
tree that stands behind them, and keeps all other trees (`Fuses`). It fails for the leftmost run
that is too long or that has no tree behind it (`FirstFault`), and what it gives is fused already
(`fuse_eq_iff_runs`).
-/

namespace Reckon.Tree

/-- Whether all of some tokens are functions. -/
def AreFunctions (run : List Token) : Prop := ∀ f ∈ run, ∃ name, f.kind = .function name

/-- Whether fusing makes some trees out of others where a run may be `room` long: each run of
functions is called on the tree behind it, and a tree without functions before it stays as it is. -/
inductive Fuses (room : Nat) : List Tree → List Tree → Prop where
  | nil : Fuses room [] []
  | cons {run : List Token} {item : Tree} {rest fused : List Tree} (hrun : AreFunctions run)
      (hroom : run.length ≤ room) (hitem : item.function? = none) (hrest : Fuses room rest fused) :
      Fuses room (run.map leaf ++ item :: rest) (run.foldr call item :: fused)

/-- Whether `run` stands in a level behind `before` and consists of functions, where neither
neighbour is a function. -/
structure IsFunctionRun (items before : List Tree) (run : List Token) (after : List Tree) :
    Prop where
  items_eq : items = before ++ (run.map leaf ++ after)
  ne_nil : run ≠ []
  functions : AreFunctions run
  left : ∀ item ∈ before.getLast?, item.function? = none
  right : ∀ item ∈ after.head?, item.function? = none

/-- Whether a run of functions is too long or has nothing to be called on. -/
structure IsFaultyRun (room : Nat) (items before : List Tree) (run : List Token)
    (after : List Tree) : Prop extends IsFunctionRun items before run after where
  faulty : room < run.length ∨ after = []

/-- Whether no faulty run stands further to the left. -/
structure IsFirstFaultyRun (room : Nat) (items before : List Tree) (run : List Token)
    (after : List Tree) : Prop extends IsFaultyRun room items before run after where
  first {before' after' : List Tree} {run' : List Token}
    (h : IsFaultyRun room items before' run' after') : before.length ≤ before'.length

/-- The error for the leftmost faulty run of a level: its first function too many, or else the last
item of the level. -/
inductive FirstFault (room : Nat) (items : List Tree) : GroupError → Prop where
  | tooDeep {before after : List Tree} {run : List Token} {f : Token}
      (h : IsFirstFaultyRun room items before run after) (hf : run[room]? = some f) :
      FirstFault room items (.tooDeep room f.span)
  | missingArgument {before after : List Tree} {run : List Token} {f : Token}
      (h : IsFirstFaultyRun room items before run after) (hroom : run.length ≤ room)
      (hf : items.getLast?.bind function? = some f) :
      FirstFault room items (.missingArgument f.kind.name f.span)

/-! ## Runs of functions -/

section Runs

variable {room : Nat} {run run' : List Token} {item : Tree}
  {items rest fused before after : List Tree} {cause : GroupError}

/-- A level is a run of functions, or it goes on behind a run with something else. -/
theorem runs_induction {motive : List Tree → Prop}
    (last : ∀ run, AreFunctions run → motive (run.map leaf))
    (cons : ∀ run item rest, AreFunctions run → item.function? = none → motive rest →
      motive (run.map leaf ++ item :: rest)) (items : List Tree) : motive items := by
  suffices h : ∀ run, AreFunctions run → motive (run.map leaf ++ items) from
    h [] (List.forall_mem_nil _)
  induction items with
  | nil => simpa using last
  | cons item rest ih =>
    intro run hrun
    cases hitem : item.function? with
    | none => exact cons run item rest hrun hitem (ih [] (List.forall_mem_nil _))
    | some f =>
      obtain ⟨rfl, hname⟩ := function?_eq_some hitem
      have hmore : AreFunctions (run ++ [f]) :=
        List.forall_mem_append.mpr ⟨hrun, List.forall_mem_singleton.mpr hname⟩
      simpa using ih (run ++ [f]) hmore

theorem ne_none_of_mem_run (hrun : AreFunctions run) {t : Tree} (ht : t ∈ run.map leaf) :
    t.function? ≠ none := by
  obtain ⟨f, hf, rfl⟩ := List.mem_map.mp ht
  obtain ⟨name, hname⟩ := hrun f hf
  simp [function?_leaf hname]

theorem map_function?_run (hrun : AreFunctions run) :
    (run.map leaf).map function? = run.map some := by
  rw [List.map_map]
  refine List.map_congr_left fun f hf => ?_
  obtain ⟨name, hname⟩ := hrun f hf
  exact function?_leaf hname

/-- What stands last behind a tree that is no function decides whether a level ends in one. -/
theorem not_function_of_mem_getLast? {front : List Tree} (hitem : item.function? = none)
    (hrest : ∀ t ∈ rest.getLast?, t.function? = none) :
    ∀ t ∈ (front ++ item :: rest).getLast?, t.function? = none := by
  intro t ht
  rw [List.getLast?_append, List.getLast?_cons] at ht
  cases hlast : rest.getLast? with
  | none =>
    obtain rfl : item = t := by simpa [hlast] using ht
    exact hitem
  | some last =>
    obtain rfl : last = t := by simpa [hlast] using ht
    exact hrest last hlast

/-- A level tells where the functions in front of it end. -/
theorem run_append_inj (hrun : AreFunctions run) (hrun' : AreFunctions run')
    (hrest : ∀ item ∈ rest.head?, item.function? = none)
    (hafter : ∀ item ∈ after.head?, item.function? = none)
    (h : run.map leaf ++ rest = run'.map leaf ++ after) : run = run' ∧ rest = after := by
  induction run generalizing run' with
  | nil =>
    cases run' with
    | nil => exact ⟨rfl, h⟩
    | cons f run' =>
      refine absurd (hrest (leaf f) ?_) (ne_none_of_mem_run hrun' List.mem_cons_self)
      rw [show rest = leaf f :: _ from h]
      rfl
  | cons f run ih =>
    cases run' with
    | nil =>
      refine absurd (hafter (leaf f) ?_) (ne_none_of_mem_run hrun List.mem_cons_self)
      rw [show after = leaf f :: _ from h.symm]
      rfl
    | cons f' run' =>
      obtain ⟨hhead, htail⟩ := List.cons.inj h
      obtain rfl := Tree.leaf.inj hhead
      rw [AreFunctions, List.forall_mem_cons] at hrun hrun'
      obtain ⟨rfl, rfl⟩ := ih hrun.2 hrun'.2 htail
      exact ⟨rfl, rfl⟩

/-- A run stays one when what stands in front of it, or a part of that, is left out. -/
theorem IsFunctionRun.of_append (front : List Tree)
    (h : IsFunctionRun items (front ++ before) run after)
    (hitems : items = front ++ rest) : IsFunctionRun rest before run after where
  items_eq := List.append_cancel_left (hitems.symm.trans (h.items_eq.trans (List.append_assoc ..)))
  ne_nil := h.ne_nil
  functions := h.functions
  left item hitem := h.left item (by simp_all [List.getLast?_append])
  right := h.right

/-- A run at the start of a level is the first of its runs, and all others stand behind it. -/
theorem IsFunctionRun.cases_run (hrun : AreFunctions run)
    (hrest : ∀ item ∈ rest.head?, item.function? = none)
    (h : IsFunctionRun (run.map leaf ++ rest) before run' after) :
    (before = [] ∧ run' = run ∧ after = rest) ∨
      ∃ before', before = run.map leaf ++ before' ∧ IsFunctionRun rest before' run' after := by
  rcases List.append_eq_append_iff.mp h.items_eq with ⟨before', rfl, -⟩ | ⟨others, hothers, heq⟩
  · exact .inr ⟨before', rfl, h.of_append _ rfl⟩
  · -- nothing can stand before the run, since its neighbour would be a function
    have hbefore : before = [] := by
      rcases List.eq_nil_or_concat before with rfl | ⟨front, item, rfl⟩
      · rfl
      · rw [List.concat_eq_append] at h hothers
        have hmem : item ∈ run.map leaf := by simp [hothers]
        exact absurd (h.left item (by simp)) (ne_none_of_mem_run hrun hmem)
    subst hbefore
    rw [List.nil_append] at hothers
    rw [← hothers] at heq
    obtain ⟨rfl, rfl⟩ := run_append_inj h.functions hrun h.right hrest heq
    exact .inl ⟨rfl, rfl, rfl⟩

/-- A run does not start with a tree that is no function. -/
theorem IsFunctionRun.cases_item (hitem : item.function? = none)
    (h : IsFunctionRun (item :: rest) before run after) :
    ∃ before', before = item :: before' ∧ IsFunctionRun rest before' run after := by
  cases before with
  | nil =>
    obtain ⟨f, run, rfl⟩ := List.exists_cons_of_ne_nil h.ne_nil
    obtain ⟨rfl, -⟩ := List.cons.inj h.items_eq
    exact absurd hitem (ne_none_of_mem_run h.functions List.mem_cons_self)
  | cons first before =>
    obtain ⟨rfl, -⟩ := List.cons.inj h.items_eq
    exact ⟨before, rfl, h.of_append [item] rfl⟩

/-! ## The leftmost fault -/

/-- Behind a run that is not too long and the tree that it is called on, the faulty runs are those
of the rest. -/
theorem isFaultyRun_append_iff (hrun : AreFunctions run) (hroom : run.length ≤ room)
    (hitem : item.function? = none) :
    IsFaultyRun room (run.map leaf ++ item :: rest) before run' after ↔
      ∃ before', before = run.map leaf ++ item :: before' ∧
        IsFaultyRun room rest before' run' after := by
  constructor
  · intro h
    have hrest : ∀ t ∈ (item :: rest).head?, t.function? = none := by simpa using hitem
    rcases h.toIsFunctionRun.cases_run hrun hrest with ⟨-, rfl, rfl⟩ | ⟨before', rfl, hbehind⟩
    · rcases h.faulty with hlong | hnil
      · omega
      · contradiction
    · obtain ⟨before', rfl, hrest⟩ := hbehind.cases_item hitem
      exact ⟨before', rfl, hrest, h.faulty⟩
  · rintro ⟨before', rfl, h⟩
    exact ⟨⟨by simp [h.items_eq], h.ne_nil, h.functions,
      not_function_of_mem_getLast? hitem h.left, h.right⟩, h.faulty⟩

theorem isFirstFaultyRun_append_iff (hrun : AreFunctions run) (hroom : run.length ≤ room)
    (hitem : item.function? = none) :
    IsFirstFaultyRun room (run.map leaf ++ item :: rest) before run' after ↔
      ∃ before', before = run.map leaf ++ item :: before' ∧
        IsFirstFaultyRun room rest before' run' after := by
  have hiff {before after : List Tree} {run' : List Token} :
      IsFaultyRun room (run.map leaf ++ item :: rest) before run' after ↔ _ :=
    isFaultyRun_append_iff hrun hroom hitem
  constructor
  · intro h
    obtain ⟨before', rfl, hfaulty⟩ := hiff.mp h.toIsFaultyRun
    refine ⟨before', rfl, hfaulty, fun hother => ?_⟩
    have := h.first (hiff.mpr ⟨_, rfl, hother⟩)
    simpa using this
  · rintro ⟨before', rfl, h⟩
    refine ⟨hiff.mpr ⟨before', rfl, h.toIsFaultyRun⟩, fun hother => ?_⟩
    obtain ⟨_, rfl, hbehind⟩ := hiff.mp hother
    have := h.first hbehind
    simpa using this

theorem IsFunctionRun.getLast?_ne_none (h : IsFunctionRun items before run after) :
    items.getLast? ≠ none := by
  simp [h.items_eq, h.ne_nil]

/-- A fault behind a run with its argument is the first one of the level. -/
theorem firstFault_append_iff (hrun : AreFunctions run) (hroom : run.length ≤ room)
    (hitem : item.function? = none) :
    FirstFault room (run.map leaf ++ item :: rest) cause ↔ FirstFault room rest cause := by
  have hlast (hne : rest.getLast? ≠ none) :
      (run.map leaf ++ item :: rest).getLast? = rest.getLast? := by
    rw [List.getLast?_append, List.getLast?_cons]
    cases hrest : rest.getLast? with
    | none => contradiction
    | some last => rfl
  constructor
  · intro h
    cases h with
    | tooDeep h hf =>
      obtain ⟨_, -, h⟩ := (isFirstFaultyRun_append_iff hrun hroom hitem).mp h
      exact .tooDeep h hf
    | missingArgument h hroom' hf =>
      obtain ⟨_, -, h⟩ := (isFirstFaultyRun_append_iff hrun hroom hitem).mp h
      exact .missingArgument h hroom' (hlast h.getLast?_ne_none ▸ hf)
  · intro h
    cases h with
    | tooDeep h hf =>
      exact .tooDeep ((isFirstFaultyRun_append_iff hrun hroom hitem).mpr ⟨_, rfl, h⟩) hf
    | missingArgument h hroom' hf =>
      exact .missingArgument ((isFirstFaultyRun_append_iff hrun hroom hitem).mpr ⟨_, rfl, h⟩)
        hroom' (hlast h.getLast?_ne_none ▸ hf)

/-- A faulty run at the start of a level is the first one. -/
theorem isFirstFaultyRun_iff (hrun : AreFunctions run) (hne : run ≠ [])
    (hrest : ∀ item ∈ rest.head?, item.function? = none) (hfaulty : room < run.length ∨ rest = []) :
    IsFirstFaultyRun room (run.map leaf ++ rest) before run' after ↔
      before = [] ∧ run' = run ∧ after = rest := by
  have hfirst : IsFaultyRun room (run.map leaf ++ rest) [] run rest :=
    ⟨⟨rfl, hne, hrun, fun t ht => by contradiction, hrest⟩, hfaulty⟩
  constructor
  · intro h
    have hbefore : before = [] := List.length_eq_zero_iff.mp (Nat.le_zero.mp (h.first hfirst))
    rcases h.toIsFunctionRun.cases_run hrun hrest with hcase | ⟨before', hsplit, -⟩
    · exact hcase
    · simp [hbefore, hne] at hsplit
  · rintro ⟨rfl, rfl, rfl⟩
    exact ⟨hfirst, fun _ => Nat.zero_le _⟩

theorem firstFault_of_long (hrun : AreFunctions run)
    (hrest : ∀ item ∈ rest.head?, item.function? = none) {f : Token} (hf : run[room]? = some f) :
    FirstFault room (run.map leaf ++ rest) cause ↔ cause = .tooDeep room f.span := by
  obtain ⟨hlong, -⟩ := List.getElem?_eq_some_iff.mp hf
  have hne : run ≠ [] := List.ne_nil_of_length_pos (by omega)
  constructor
  · intro h
    cases h with
    | tooDeep h hf' =>
      obtain ⟨-, rfl, -⟩ := (isFirstFaultyRun_iff hrun hne hrest (.inl hlong)).mp h
      rw [Option.some.inj (hf.symm.trans hf')]
    | missingArgument h hroom _ =>
      obtain ⟨-, rfl, -⟩ := (isFirstFaultyRun_iff hrun hne hrest (.inl hlong)).mp h
      omega
  · rintro rfl
    exact .tooDeep ((isFirstFaultyRun_iff hrun hne hrest (.inl hlong)).mpr ⟨rfl, rfl, rfl⟩) hf

theorem firstFault_of_last (hrun : AreFunctions run) (hroom : run.length ≤ room) :
    FirstFault room (run.map leaf) cause ↔
      ∃ f, run.getLast? = some f ∧ cause = .missingArgument f.kind.name f.span := by
  have hiff {before after : List Tree} {run' : List Token} (hne : run ≠ []) :
      IsFirstFaultyRun room (run.map leaf) before run' after ↔
        before = [] ∧ run' = run ∧ after = [] := by
    rw [← List.append_nil (run.map leaf)]
    exact isFirstFaultyRun_iff hrun hne (by simp) (.inr rfl)
  have hlast : (run.map leaf).getLast?.bind function? = run.getLast? := by
    rw [List.getLast?_map]
    cases hf : run.getLast? with
    | none => rfl
    | some f =>
      obtain ⟨name, hname⟩ := hrun f (List.mem_of_getLast? hf)
      exact function?_leaf hname
  constructor
  · intro h
    cases h with
    | tooDeep h hf =>
      have hne : run ≠ [] := by simpa using h.getLast?_ne_none
      obtain ⟨-, rfl, -⟩ := (hiff hne).mp h
      obtain ⟨hlong, -⟩ := List.getElem?_eq_some_iff.mp hf
      omega
    | missingArgument h _ hf => exact ⟨_, hlast ▸ hf, rfl⟩
  · rintro ⟨f, hf, rfl⟩
    have hne : run ≠ [] := by
      rintro rfl
      contradiction
    exact .missingArgument ((hiff hne).mpr ⟨rfl, rfl, rfl⟩) hroom (hlast ▸ hf)

/-! ## Fusing run by run -/

/-- The functions in front of a level go to the row before it. -/
theorem fuseAfter_run {maxDepth depth : Nat} {row : List Token} (hrun : AreFunctions run)
    (hdepth : depth + (row.length + run.length) ≤ maxDepth) (items : List Tree) :
    fuseAfter maxDepth depth row (run.map leaf ++ items) =
      fuseAfter maxDepth depth (run.reverse ++ row) items := by
  induction run generalizing row with
  | nil => rfl
  | cons f run ih =>
    rw [AreFunctions, List.forall_mem_cons] at hrun
    obtain ⟨⟨name, hname⟩, hrun⟩ := hrun
    rw [List.length_cons] at hdepth
    rw [List.map_cons, List.cons_append, fuseAfter, function?_leaf hname]
    dsimp only
    rw [if_neg (by omega), ih hrun (by rw [List.length_cons]; omega), List.reverse_cons,
      List.append_assoc, List.singleton_append]

/-- Fusing calls the functions of a run on the tree behind them and goes on with the rest. -/
theorem fuse_append (hrun : AreFunctions run) (hroom : run.length ≤ room)
    (hitem : item.function? = none) :
    fuse room 0 (run.map leaf ++ item :: rest) =
      (run.foldr call item :: ·) <$> fuse room 0 rest := by
  rw [fuse, fuseAfter_run hrun (by simpa using hroom), fuseAfter, hitem, List.append_nil, callAll,
    List.foldl_reverse, ← fuse]
  cases fuse room 0 rest <;> rfl

theorem failure?_fuse_last (hrun : AreFunctions run) (hroom : run.length ≤ room) :
    failure? (fuse room 0 (run.map leaf)) =
      run.getLast?.map fun f => .missingArgument f.kind.name f.span := by
  rw [failure?_fuse _ (Nat.zero_le room), map_function?_run hrun, Nat.sub_zero, rowFault?_run hroom]

theorem failure?_fuse_long (hrun : AreFunctions run) {f : Token} (hf : run[room]? = some f)
    (rest : List Tree) :
    failure? (fuse room 0 (run.map leaf ++ rest)) = some (.tooDeep room f.span) := by
  obtain ⟨hlong, hget⟩ := List.getElem?_eq_some_iff.mp hf
  obtain ⟨front, back, rfl, hlength⟩ :
      ∃ front back, run = front ++ f :: back ∧ front.length = room := by
    refine ⟨run.take room, run.drop (room + 1), ?_, ?_⟩
    · rw [← hget, ← List.drop_eq_getElem_cons hlong, List.take_append_drop]
    · rw [List.length_take]
      omega
  have hrow : (((front ++ f :: back).map leaf) ++ rest).map function? =
      front.map some ++ some f :: (back.map some ++ rest.map function?) := by
    rw [List.map_append, map_function?_run hrun]
    simp
  rw [failure?_fuse _ (Nat.zero_le room), hrow, Nat.sub_zero, rowFault?_run_some hlength]

/-- Where fusing succeeds no run at the start is too long. -/
theorem length_le_of_fuse (hrun : AreFunctions run)
    (h : fuse room 0 (run.map leaf ++ rest) = .ok fused) : run.length ≤ room := by
  refine Nat.le_of_not_lt fun hlong => ?_
  have hf : run[room]? = some run[room] := List.getElem?_eq_getElem hlong
  have hfailure := failure?_fuse_long hrun hf rest
  rw [h] at hfailure
  contradiction

/-- Fusing fails for the leftmost fault. -/
theorem fuse_eq_error_iff : fuse room 0 items = .error cause ↔ FirstFault room items cause := by
  rw [← failure?_eq_some]
  induction items using runs_induction with
  | last run hrun =>
    by_cases hroom : run.length ≤ room
    · rw [failure?_fuse_last hrun hroom, firstFault_of_last hrun hroom, Option.map_eq_some_iff]
      simp only [eq_comm]
    · obtain ⟨f, hf⟩ : ∃ f, run[room]? = some f := ⟨_, List.getElem?_eq_getElem (by omega)⟩
      rw [← List.append_nil (run.map leaf), failure?_fuse_long hrun hf,
        firstFault_of_long hrun (by simp) hf, Option.some.injEq, eq_comm]
  | cons run item rest hrun hitem ih =>
    by_cases hroom : run.length ≤ room
    · rw [fuse_append hrun hroom hitem, firstFault_append_iff hrun hroom hitem, ← ih]
      cases fuse room 0 rest <;> rfl
    · obtain ⟨f, hf⟩ : ∃ f, run[room]? = some f := ⟨_, List.getElem?_eq_getElem (by omega)⟩
      rw [failure?_fuse_long hrun hf, firstFault_of_long hrun (by simpa using hitem) hf,
        Option.some.injEq, eq_comm]

/-- Fusing succeeds with what the rule for runs gives. -/
theorem fuse_eq_ok_iff : fuse room 0 items = .ok fused ↔ Fuses room items fused := by
  constructor
  · intro h
    induction items using runs_induction generalizing fused with
    | last run hrun =>
      have hroom : run.length ≤ room := by
        rw [← List.append_nil (run.map leaf)] at h
        exact length_le_of_fuse hrun h
      have hfailure := failure?_fuse_last hrun hroom
      rw [h] at hfailure
      obtain rfl := List.getLast?_eq_none_iff.mp (Option.map_eq_none_iff.mp hfailure.symm)
      obtain rfl := Except.ok.inj h
      exact .nil
    | cons run item rest hrun hitem ih =>
      have hroom := length_le_of_fuse hrun h
      rw [fuse_append hrun hroom hitem] at h
      cases hrest : fuse room 0 rest with
      | error cause => rw [hrest] at h; contradiction
      | ok others =>
        rw [hrest] at h
        obtain rfl := Except.ok.inj h
        exact .cons hrun hroom hitem (ih hrest)
  · intro h
    induction h with
    | nil => rfl
    | cons hrun hroom hitem _ ih => rw [fuse_append hrun hroom hitem, ih]; rfl

/-! ## Fused levels -/

/-- In a fused level no function is left without its argument. -/
theorem Fuses.function?_eq_none (h : Fuses room items fused) :
    ∀ item ∈ fused, item.function? = none := by
  induction h with
  | nil => exact List.forall_mem_nil _
  | @cons run item _ _ _ _ hitem _ ih =>
    refine List.forall_mem_cons.mpr ⟨?_, ih⟩
    cases run with
    | nil => exact hitem
    | cons f run => rfl

/-- Fusing leaves a level without functions as it is. -/
theorem fuses_self (h : ∀ item ∈ items, item.function? = none) : Fuses room items items := by
  induction items with
  | nil => exact .nil
  | cons item rest ih =>
    rw [List.forall_mem_cons] at h
    have hrun : AreFunctions [] := List.forall_mem_nil _
    exact .cons hrun (Nat.zero_le room) h.1 (ih h.2)

/-- A level that can be fused has no faulty run. -/
theorem Fuses.not_isFaultyRun (h : Fuses room items fused) :
    ¬IsFaultyRun room items before run after := by
  induction h generalizing before with
  | nil => exact fun hfaulty => hfaulty.getLast?_ne_none rfl
  | cons hrun hroom hitem _ ih =>
    intro hfaulty
    obtain ⟨_, -, hbehind⟩ := (isFaultyRun_append_iff hrun hroom hitem).mp hfaulty
    exact ih hbehind

/-- A level that can be fused does not end in a function. -/
theorem Fuses.last (h : Fuses room items fused) :
    ∀ item ∈ items.getLast?, item.function? = none := by
  induction h with
  | nil => simp
  | cons _ _ hitem _ ih => exact not_function_of_mem_getLast? hitem ih

/-- A level has a fault exactly if a run of functions is too long or its last tree is a function. -/
theorem exists_firstFault_iff : (∃ cause, FirstFault room items cause) ↔
    (∃ before run after, IsFunctionRun items before run after ∧ room < run.length) ∨
      ∃ f, items.getLast?.bind function? = some f := by
  constructor
  · rintro ⟨cause, h⟩
    cases h with
    | tooDeep h hf =>
      obtain ⟨hlong, -⟩ := List.getElem?_eq_some_iff.mp hf
      exact .inl ⟨_, _, _, h.toIsFunctionRun, hlong⟩
    | missingArgument _ _ hf => exact .inr ⟨_, hf⟩
  · intro h
    cases hfuse : fuse room 0 items with
    | error cause => exact ⟨cause, fuse_eq_error_iff.mp hfuse⟩
    | ok fused =>
      have hfuses := fuse_eq_ok_iff.mp hfuse
      rcases h with ⟨before, run, after, hrun, hlong⟩ | ⟨f, hf⟩
      · exact absurd ⟨hrun, .inl hlong⟩ hfuses.not_isFaultyRun
      · obtain ⟨item, hitem, hfunction⟩ := Option.bind_eq_some_iff.mp hf
        rw [hfuses.last item hitem] at hfunction
        contradiction

end Runs

/-- Fusing a level calls each run of functions on the tree behind it. It fails if a run is too long
or the level ends in a function, and then for the leftmost of these faults. Where it succeeds no
function is left without its argument, and fusing again changes nothing. -/
theorem fuse_eq_iff_runs (maxDepth : Nat) (items : List Tree) :
    (∀ fused, fuse maxDepth 0 items = .ok fused ↔ Fuses maxDepth items fused) ∧
    (∀ cause, fuse maxDepth 0 items = .error cause ↔ FirstFault maxDepth items cause) ∧
    ((∃ cause, fuse maxDepth 0 items = .error cause) ↔
      (∃ before run after, IsFunctionRun items before run after ∧ maxDepth < run.length) ∨
        ∃ f, items.getLast?.bind function? = some f) ∧
    ∀ fused, fuse maxDepth 0 items = .ok fused →
      (∀ item ∈ fused, item.function? = none) ∧ fuse maxDepth 0 fused = .ok fused := by
  refine ⟨fun fused => fuse_eq_ok_iff, fun cause => fuse_eq_error_iff, ?_, fun fused h => ?_⟩
  · simp only [fuse_eq_error_iff]
    exact exists_firstFault_iff
  · have hnone := (fuse_eq_ok_iff.mp h).function?_eq_none
    exact ⟨hnone, fuse_eq_ok_iff.mpr (fuses_self hnone)⟩

/-- A run of two functions, a call that was there before, and a run of one. A third function in the
first run is one too many, and it comes before the function at the end. -/
theorem fuse_eq_iff_runs_two :
    let f : Token := .plain (.function "F") ⟨0, 1⟩
    let g : Token := .plain (.function "G") ⟨1, 2⟩
    let h : Token := .plain (.function "H") ⟨2, 3⟩
    let x : Tree := leaf (.plain (.var "x") ⟨3, 4⟩)
    let items := [leaf f, leaf g, x, call f x, leaf h, x]
    let fused := [call f (call g x), call f x, call h x]
    fuse 2 0 items = .ok fused ∧ Fuses 2 items fused ∧ fuse 2 0 fused = .ok fused ∧
      (∀ item ∈ fused, item.function? = none) ∧
      FirstFault 2 [leaf f, leaf g, leaf h, x, leaf f] (.tooDeep 2 ⟨2, 3⟩) := by
  intro f g h x items fused
  have hfuse : fuse 2 0 items = .ok fused := rfl
  obtain ⟨hok, -, -, hagain⟩ := fuse_eq_iff_runs 2 items
  obtain ⟨hnone, hfused⟩ := hagain fused hfuse
  obtain ⟨-, herror, -, -⟩ := fuse_eq_iff_runs 2 [leaf f, leaf g, leaf h, x, leaf f]
  exact ⟨hfuse, (hok fused).mp hfuse, hfused, hnone, (herror _).mp rfl⟩

end Reckon.Tree
