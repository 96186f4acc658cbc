import Reckon.Proofs.Outcome
import Reckon.Tree.OfTokens

/-!
# Trees and the tokens they are made of

`Tree.flatten` writes a tree out as tokens again, with a mark for each closing bracket. The tree
that is read off some tokens is well-formed, and reading loses none of them (`flatten_of_ofTokens`).
-/

namespace Reckon

namespace Token

/-- A token as trees show it: of a closing bracket only its place is left. -/
def mark (t : Token) : Option Token := if t.kind = .closeBracket then none else some t

theorem mark_of_ne {t : Token} (h : t.kind ≠ .closeBracket) : t.mark = some t := if_neg h

theorem mark_eq_none {t : Token} : t.mark = none ↔ t.kind = .closeBracket := by
  unfold mark
  split <;> simp_all

theorem mark_eq_some {s t : Token} : s.mark = some t ↔ s = t ∧ t.kind ≠ .closeBracket := by
  unfold mark
  split
  · simp only [reduceCtorEq, false_iff]
    rintro ⟨rfl, h⟩
    contradiction
  · simp only [Option.some.injEq]
    exact ⟨fun h => ⟨h, h ▸ ‹_›⟩, fun h => h.1⟩

end Token

namespace Tree

/-! ## Flattening -/

mutual

/-- The tokens of a tree in their order, with `none` for a closing bracket. -/
def flatten : Tree → List (Option Token)
  | leaf token => [some token]
  | group opener items => (opener.map some).toList ++ flattenAll items ++ [none]
  | call function argument => some function :: flatten argument
termination_by structural t => t

/-- The tokens of some trees in their order. -/
def flattenAll : List Tree → List (Option Token)
  | [] => []
  | t :: rest => flatten t ++ flattenAll rest
termination_by structural items => items

end

@[simp] theorem flattenAll_append (ts us : List Tree) :
    flattenAll (ts ++ us) = flattenAll ts ++ flattenAll us := by
  induction ts with
  | nil => rfl
  | cons t ts ih => simp [flattenAll, ih]

/-- Whether a tree is a function that still waits for its argument. -/
def isFunction (t : Tree) : Prop := ∃ token name, t = leaf token ∧ token.kind = .function name

mutual

/-- Brackets enclose groups, functions stand in front of arguments, and all other tokens are
leaves. -/
def WellFormed : Tree → Prop
  | leaf token =>
    token.kind ≠ .openBracket ∧ token.kind ≠ .closeBracket ∧ ∀ name, token.kind ≠ .function name
  | group opener items => (∃ o, opener = some o ∧ o.kind = .openBracket) ∧ AllWellFormed items
  | call function argument => (∃ name, function.kind = .function name) ∧ WellFormed argument
termination_by structural t => t

/-- All of some trees are well-formed. -/
def AllWellFormed : List Tree → Prop
  | [] => True
  | t :: rest => WellFormed t ∧ AllWellFormed rest
termination_by structural items => items

end

theorem allWellFormed_iff {items : List Tree} :
    AllWellFormed items ↔ ∀ t ∈ items, WellFormed t := by
  induction items with
  | nil => simp [AllWellFormed]
  | cons t rest ih => simp [AllWellFormed, ih]

mutual

theorem ne_closeBracket_of_mem_flatten {t : Tree} (h : t.WellFormed) {s : Token}
    (hs : some s ∈ t.flatten) : s.kind ≠ .closeBracket := by
  match t with
  | leaf token =>
    obtain rfl := Option.some.inj (List.mem_singleton.mp hs)
    exact h.2.1
  | group opener items =>
    obtain ⟨⟨o, rfl, hopen⟩, hitems⟩ := h
    simp only [flatten, Option.map_some, Option.toList_some, List.mem_append, List.mem_singleton,
      Option.some.injEq, reduceCtorEq, or_false] at hs
    rcases hs with rfl | hs
    · simp [hopen]
    · exact ne_closeBracket_of_mem_flattenAll hitems hs
  | call function argument =>
    obtain ⟨⟨name, hname⟩, hargument⟩ := h
    rcases List.mem_cons.mp hs with heq | hs
    · obtain rfl := Option.some.inj heq
      simp [hname]
    · exact ne_closeBracket_of_mem_flatten hargument hs
termination_by structural t

theorem ne_closeBracket_of_mem_flattenAll {items : List Tree} (h : AllWellFormed items) {s : Token}
    (hs : some s ∈ flattenAll items) : s.kind ≠ .closeBracket := by
  match items with
  | [] => contradiction
  | t :: rest =>
    rcases List.mem_append.mp hs with hs | hs
    · exact ne_closeBracket_of_mem_flatten h.1 hs
    · exact ne_closeBracket_of_mem_flattenAll h.2 hs
termination_by structural items

end

/-- Well-formed trees can be written out as tokens. -/
theorem exists_tokens {items : List Tree} (h : AllWellFormed items) :
    ∃ tokens : List Token, flattenAll items = tokens.map Token.mark := by
  let close : Token := .plain .closeBracket ⟨0, 0⟩
  refine ⟨(flattenAll items).map fun mark => mark.getD close, ?_⟩
  rw [List.map_map]
  refine (List.map_id _).symm.trans (List.map_congr_left fun mark hmark => ?_)
  cases mark with
  | none => rfl
  | some s => exact (Token.mark_of_ne (ne_closeBracket_of_mem_flattenAll h hmark)).symm

/-! ## Calls -/

theorem callAll_cons (function : Token) (row : List Token) (argument : Tree) :
    callAll (function :: row) argument = callAll row (call function argument) := rfl

theorem flatten_callAll (row : List Token) (argument : Tree) :
    (callAll row argument).flatten = row.reverse.map some ++ argument.flatten := by
  induction row generalizing argument with
  | nil => rfl
  | cons function row ih => simp [callAll_cons, ih, flatten]

theorem wellFormed_callAll {row : List Token} {argument : Tree}
    (hrow : ∀ f ∈ row, ∃ name, f.kind = .function name) (harg : WellFormed argument) :
    WellFormed (callAll row argument) := by
  induction row generalizing argument with
  | nil => exact harg
  | cons function row ih =>
    rw [callAll_cons]
    exact ih (fun f hf => hrow f (by simp [hf])) ⟨hrow function (by simp), harg⟩

/-- A tree of a level that is not fused yet. -/
def Unfused (t : Tree) : Prop := t.isFunction ∨ t.WellFormed

theorem function?_eq_some {t : Tree} {f : Token} (h : t.function? = some f) :
    t = leaf f ∧ ∃ name, f.kind = .function name := by
  unfold function? at h
  split at h
  · split at h
    · obtain rfl := Option.some.inj h
      exact ⟨rfl, _, ‹_›⟩
    · contradiction
  · contradiction

theorem function?_leaf {f : Token} {name : String} (h : f.kind = .function name) :
    (leaf f).function? = some f := by
  simp [function?, h]

theorem function?_of_wellFormed {t : Tree} (h : t.WellFormed) : t.function? = none := by
  cases hf : t.function? with
  | none => rfl
  | some f =>
    obtain ⟨rfl, name, hname⟩ := function?_eq_some hf
    exact absurd hname (h.2.2 name)

/-! ## Fusing keeps the tokens -/

theorem flattenAll_of_fuseAfter {maxDepth depth : Nat} {row : List Token} {items out : List Tree}
    (h : fuseAfter maxDepth depth row items = .ok out) :
    flattenAll out = row.reverse.map some ++ flattenAll items := by
  induction items generalizing row out with
  | nil =>
    cases row with
    | nil =>
      obtain rfl := Except.ok.inj h
      rfl
    | cons last row => contradiction
  | cons item rest ih =>
    rw [fuseAfter] at h
    split at h
    · rename_i f hf
      obtain ⟨rfl, -⟩ := function?_eq_some hf
      split at h
      · contradiction
      · rw [ih h]
        simp [flattenAll, flatten]
    · obtain ⟨fused, hrest, h⟩ := bind_eq_ok.mp h
      obtain rfl := Except.ok.inj h
      rw [flattenAll, flatten_callAll, ih hrest]
      simp [flattenAll]

theorem wellFormed_of_fuseAfter {maxDepth depth : Nat} {row : List Token} {items out : List Tree}
    (hrow : ∀ f ∈ row, ∃ name, f.kind = .function name) (hitems : ∀ t ∈ items, t.Unfused)
    (h : fuseAfter maxDepth depth row items = .ok out) : AllWellFormed out := by
  induction items generalizing row out with
  | nil =>
    cases row with
    | nil =>
      obtain rfl := Except.ok.inj h
      trivial
    | cons last row => contradiction
  | cons item rest ih =>
    have hrest : ∀ t ∈ rest, t.Unfused := fun t ht => hitems t (by simp [ht])
    rw [fuseAfter] at h
    split at h
    · rename_i f hf
      obtain ⟨rfl, hname⟩ := function?_eq_some hf
      split at h
      · contradiction
      · exact ih (by simpa [hname] using hrow) hrest h
    · rename_i hnone
      obtain ⟨fused, hfuse, h⟩ := bind_eq_ok.mp h
      obtain rfl := Except.ok.inj h
      refine ⟨wellFormed_callAll hrow ?_, ih (by simp) hrest hfuse⟩
      rcases hitems item (by simp) with ⟨f, name, rfl, hname⟩ | hwf
      · rw [function?_leaf hname] at hnone
        contradiction
      · exact hwf

/-! ## Reading keeps the tokens -/

section Reading

variable {maxDepth : Nat} {levels : List Level} {items : List Tree} {t : Token} {rest : List Token}

theorem readTokens_openBracket (h : t.kind = .openBracket) :
    readTokens maxDepth levels items (t :: rest) =
      if maxDepth ≤ levels.length then .error (.tooDeep maxDepth t.span)
      else readTokens maxDepth (⟨t, items⟩ :: levels) [] rest := by
  simp only [readTokens, h]

theorem readTokens_closeBracket_nil (h : t.kind = .closeBracket) :
    readTokens maxDepth [] items (t :: rest) = .error (.unbalancedBrackets t.span) := by
  simp only [readTokens, h]

theorem readTokens_closeBracket_cons {level : Level} (h : t.kind = .closeBracket) :
    readTokens maxDepth (level :: levels) items (t :: rest) =
      (do
        let fused ← fuse maxDepth (level :: levels).length items.reverse
        readTokens maxDepth levels (group (some level.opener) fused :: level.before) rest) := by
  simp only [readTokens, h]

theorem readTokens_leaf (hopen : t.kind ≠ .openBracket) (hclose : t.kind ≠ .closeBracket) :
    readTokens maxDepth levels items (t :: rest) =
      readTokens maxDepth levels (leaf t :: items) rest := by
  simp only [readTokens]

end Reading

/-- The tokens of the open levels, the innermost one in front. -/
def flattenLevels : List Level → List (Option Token)
  | [] => []
  | level :: outer =>
    flattenLevels outer ++ flattenAll level.before.reverse ++ [some level.opener]

/-- What holds of the open levels while tokens are read. -/
def LevelsSound (levels : List Level) : Prop :=
  ∀ level ∈ levels, level.opener.kind = .openBracket ∧ ∀ t ∈ level.before, t.Unfused

theorem LevelsSound.cons {levels : List Level} {level : Level} (hlevels : LevelsSound levels)
    (hopen : level.opener.kind = .openBracket) (hbefore : ∀ t ∈ level.before, t.Unfused) :
    LevelsSound (level :: levels) :=
  List.forall_mem_cons.mpr ⟨⟨hopen, hbefore⟩, hlevels⟩

theorem unfused_leaf {t : Token} (hopen : t.kind ≠ .openBracket) (hclose : t.kind ≠ .closeBracket) :
    (leaf t).Unfused := by
  by_cases h : ∃ name, t.kind = .function name
  · obtain ⟨name, hname⟩ := h
    exact .inl ⟨t, name, rfl, hname⟩
  · exact .inr ⟨hopen, hclose, fun name hname => h ⟨name, hname⟩⟩

/-- What has been read and what is still to be read together make the tree. -/
theorem flatten_of_readTokens {maxDepth : Nat} {levels : List Level} {items : List Tree}
    {tokens : List Token} {root : Tree} (hlevels : LevelsSound levels)
    (hitems : ∀ t ∈ items, t.Unfused) (h : readTokens maxDepth levels items tokens = .ok root) :
    ∃ out, root = group none out ∧ AllWellFormed out ∧
      flattenAll out =
        flattenLevels levels ++ flattenAll items.reverse ++ tokens.map Token.mark := by
  induction tokens generalizing levels items with
  | nil =>
    cases levels with
    | cons level levels => contradiction
    | nil =>
      obtain ⟨out, hfuse, h⟩ := bind_eq_ok.mp h
      obtain rfl := Except.ok.inj h
      refine ⟨out, rfl, wellFormed_of_fuseAfter (by simp) (by simpa using hitems) hfuse, ?_⟩
      simpa [flattenLevels] using flattenAll_of_fuseAfter hfuse
  | cons t rest ih =>
    by_cases hopen : t.kind = .openBracket
    · rw [readTokens_openBracket hopen] at h
      split at h
      · contradiction
      · obtain ⟨out, hroot, hwf, hflat⟩ := ih (hlevels.cons hopen hitems) (by simp) h
        refine ⟨out, hroot, hwf, ?_⟩
        rw [hflat]
        simp [flattenLevels, flattenAll, Token.mark_of_ne, hopen]
    · by_cases hclose : t.kind = .closeBracket
      · cases levels with
        | nil => rw [readTokens_closeBracket_nil hclose] at h; contradiction
        | cons level levels =>
          obtain ⟨⟨hlevel, hbefore⟩, hlevels⟩ := List.forall_mem_cons.mp hlevels
          rw [readTokens_closeBracket_cons hclose] at h
          obtain ⟨fused, hfuse, h⟩ := bind_eq_ok.mp h
          have hwf := wellFormed_of_fuseAfter (by simp) (by simpa using hitems) hfuse
          have htokens := flattenAll_of_fuseAfter hfuse
          have hgroup : (group (some level.opener) fused).Unfused :=
            .inr ⟨⟨level.opener, rfl, hlevel⟩, hwf⟩
          obtain ⟨out, hroot, hwf, hflat⟩ :=
            ih hlevels (List.forall_mem_cons.mpr ⟨hgroup, hbefore⟩) h
          refine ⟨out, hroot, hwf, ?_⟩
          rw [hflat]
          simp only [List.reverse_nil, List.map_nil, List.nil_append] at htokens
          simp [flattenLevels, flattenAll, flatten, htokens, Token.mark_eq_none.mpr hclose]
      · rw [readTokens_leaf hopen hclose] at h
        have hleaf := unfused_leaf hopen hclose
        obtain ⟨out, hroot, hwf, hflat⟩ := ih hlevels (List.forall_mem_cons.mpr ⟨hleaf, hitems⟩) h
        refine ⟨out, hroot, hwf, ?_⟩
        rw [hflat]
        simp [flattenAll, flatten, Token.mark_of_ne hclose]

/-- The tree of some tokens is well-formed and holds all of them, each in its place. -/
theorem flatten_of_ofTokens {limits : Limits} {tokens : List Token} {root : Tree}
    (h : ofTokens limits tokens = .ok root) :
    ∃ items, root = group none items ∧ AllWellFormed items ∧
      flattenAll items = tokens.map Token.mark := by
  have hlevels : LevelsSound [] := fun level hlevel => absurd hlevel (by simp)
  simpa [flattenLevels, flattenAll] using flatten_of_readTokens hlevels (by simp) h

end Tree

end Reckon
