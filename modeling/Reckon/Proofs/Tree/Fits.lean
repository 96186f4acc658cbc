import Reckon.Proofs.Tree.Flatten

/-!
# Trees that fit under a limit

A tree fits under a nesting limit when no bracket in it opens at a level that reaches the limit, and
no call does together with the calls of its row (`Tree.Fits`). Tokens are read exactly if they are
those of well-formed trees that fit (`ofTokens_eq_ok_iff`). Whatever the limit, there are no other
well-formed trees with the same tokens (`unique_of_ofTokens`).
-/

namespace Reckon.Tree

/-! ## Fitting -/

mutual

/-- Whether a tree at level `depth`, as the argument of a row of `calls` functions, fits under a
limit. -/
def Fits (maxDepth depth calls : Nat) : Tree → Prop
  | leaf _ => True
  | group _ items => depth + 1 ≤ maxDepth ∧ AllFit maxDepth (depth + 1) items
  | call _ argument => depth + calls + 1 ≤ maxDepth ∧ Fits maxDepth depth (calls + 1) argument
termination_by structural t => t

/-- Whether the trees of a level fit under a limit. -/
def AllFit (maxDepth depth : Nat) : List Tree → Prop
  | [] => True
  | t :: rest => Fits maxDepth depth 0 t ∧ AllFit maxDepth depth rest
termination_by structural items => items

end

mutual

/-- A tree fits if the limit allows for the number of its tokens. -/
theorem fits_of_length {maxDepth depth calls : Nat} (t : Tree)
    (h : depth + calls + t.flatten.length ≤ maxDepth) : t.Fits maxDepth depth calls := by
  match t with
  | leaf _ => trivial
  | call _ argument =>
    simp only [flatten, List.length_cons] at h
    exact ⟨by omega, fits_of_length argument (by omega)⟩
  | group _ items =>
    simp only [flatten, List.length_append, List.length_cons, List.length_nil] at h
    exact ⟨by omega, allFit_of_length items (by omega)⟩
termination_by structural t

theorem allFit_of_length {maxDepth depth : Nat} (items : List Tree)
    (h : depth + (flattenAll items).length ≤ maxDepth) : AllFit maxDepth depth items := by
  match items with
  | [] => trivial
  | t :: rest =>
    rw [flattenAll, List.length_append] at h
    exact ⟨fits_of_length t (by omega), allFit_of_length rest (by omega)⟩
termination_by structural items

end

/-! ## What is read fits -/

section Reading

variable {maxDepth depth : Nat}

theorem fits_callAll {row : List Token} {argument : Tree} (hdepth : depth + row.length ≤ maxDepth)
    (h : argument.Fits maxDepth depth row.length) :
    (callAll row argument).Fits maxDepth depth 0 := by
  induction row generalizing argument with
  | nil => exact h
  | cons function row ih =>
    rw [List.length_cons] at hdepth h
    rw [callAll_cons]
    exact ih (by omega) ⟨hdepth, h⟩

/-- Whether a tree fits behind a row of any length. -/
def FitsAfterAll (maxDepth depth : Nat) (t : Tree) : Prop := ∀ calls, t.Fits maxDepth depth calls

theorem fitsAfterAll_leaf (token : Token) : (leaf token).FitsAfterAll maxDepth depth :=
  fun _ => trivial

theorem fitsAfterAll_group {opener : Option Token} {items : List Tree}
    (hdepth : depth + 1 ≤ maxDepth) (h : AllFit maxDepth (depth + 1) items) :
    (group opener items).FitsAfterAll maxDepth depth := fun _ => ⟨hdepth, h⟩

theorem allFit_of_fuseAfter {row : List Token} {items out : List Tree}
    (hdepth : depth + row.length ≤ maxDepth) (hitems : ∀ t ∈ items, t.FitsAfterAll maxDepth depth)
    (h : fuseAfter maxDepth depth row items = .ok out) : AllFit maxDepth depth out := by
  induction items generalizing row out with
  | nil =>
    cases row with
    | nil =>
      obtain rfl := Except.ok.inj h
      trivial
    | cons last row => contradiction
  | cons item rest ih =>
    rw [List.forall_mem_cons] at hitems
    rw [fuseAfter] at h
    split at h
    · split at h
      · contradiction
      · exact ih (by rw [List.length_cons]; omega) hitems.2 h
    · obtain ⟨fused, hfuse, h⟩ := bind_eq_ok.mp h
      obtain rfl := Except.ok.inj h
      exact ⟨fits_callAll hdepth (hitems.1 _), ih (by simp; omega) hitems.2 hfuse⟩

/-- Whether the trees of the open levels fit, each level inside the next one. -/
def LevelsFit (maxDepth : Nat) : List Level → Prop
  | [] => True
  | level :: outer => outer.length + 1 ≤ maxDepth ∧
    (∀ t ∈ level.before, t.FitsAfterAll maxDepth outer.length) ∧ LevelsFit maxDepth outer

theorem levelsFit_nil : LevelsFit maxDepth [] := trivial

theorem LevelsFit.cons {levels : List Level} {level : Level} (h : LevelsFit maxDepth levels)
    (hdepth : levels.length + 1 ≤ maxDepth)
    (hbefore : ∀ t ∈ level.before, t.FitsAfterAll maxDepth levels.length) :
    LevelsFit maxDepth (level :: levels) := ⟨hdepth, hbefore, h⟩

theorem LevelsFit.length_le {levels : List Level} (h : LevelsFit maxDepth levels) :
    levels.length ≤ maxDepth := by
  cases levels with
  | nil => exact Nat.zero_le _
  | cons level outer => exact h.1

theorem allFit_of_readTokens {levels : List Level} {items : List Tree} {tokens : List Token}
    {root : Tree} (hlevels : LevelsFit maxDepth levels)
    (hitems : ∀ t ∈ items, t.FitsAfterAll maxDepth levels.length)
    (h : readTokens maxDepth levels items tokens = .ok root) : AllFit maxDepth 0 root.items := by
  induction tokens generalizing levels items with
  | nil =>
    cases levels with
    | cons level levels => contradiction
    | nil =>
      obtain ⟨out, hfuse, h⟩ := bind_eq_ok.mp h
      obtain rfl := Except.ok.inj h
      exact allFit_of_fuseAfter (Nat.zero_le _) (by simpa using hitems) hfuse
  | cons t rest ih =>
    by_cases hopen : t.kind = .openBracket
    · rw [readTokens_openBracket hopen] at h
      split at h
      · contradiction
      · exact ih (hlevels.cons (by omega) hitems) (List.forall_mem_nil _) h
    · by_cases hclose : t.kind = .closeBracket
      · cases levels with
        | nil => rw [readTokens_closeBracket_nil hclose] at h; contradiction
        | cons level levels =>
          rw [readTokens_closeBracket_cons hclose] at h
          obtain ⟨fused, hfuse, h⟩ := bind_eq_ok.mp h
          have hfused := allFit_of_fuseAfter hlevels.length_le (by simpa using hitems) hfuse
          obtain ⟨hdepth, hbefore, hlevels⟩ := hlevels
          exact ih hlevels
            (List.forall_mem_cons.mpr ⟨fitsAfterAll_group hdepth hfused, hbefore⟩) h
      · rw [readTokens_leaf hopen hclose] at h
        exact ih hlevels (List.forall_mem_cons.mpr ⟨fitsAfterAll_leaf t, hitems⟩) h

end Reading

/-! ## What fits is read -/

/-- A tree as it stands in its level before fusing. -/
def unfused : Tree → List Tree
  | call function argument => leaf function :: unfused argument
  | t => [t]

theorem fuseAfter_unfused {maxDepth depth : Nat} {row : List Token} {t : Tree} {rest : List Tree}
    (hwf : t.WellFormed) (hfits : t.Fits maxDepth depth row.length) :
    fuseAfter maxDepth depth row (t.unfused ++ rest) =
      (do
        let fused ← fuseAfter maxDepth depth [] rest
        return callAll row t :: fused) := by
  fun_induction unfused t generalizing row with
  | case1 function argument ih =>
    obtain ⟨⟨name, hname⟩, hwf⟩ := hwf
    obtain ⟨hdepth, hfits⟩ := hfits
    rw [← List.length_cons (a := function)] at hfits
    rw [List.cons_append, fuseAfter, function?_leaf hname]
    dsimp only
    rw [if_neg (by omega), ih hwf hfits, callAll_cons]
  | case2 t =>
    rw [List.singleton_append, fuseAfter, function?_of_wellFormed hwf]

theorem fuse_unfused {maxDepth depth : Nat} {items : List Tree} (hwf : AllWellFormed items)
    (hfits : AllFit maxDepth depth items) :
    fuse maxDepth depth (items.flatMap unfused) = .ok items := by
  unfold fuse
  induction items with
  | nil => rfl
  | cons t rest ih =>
    rw [List.flatMap_cons, fuseAfter_unfused hwf.1 hfits.1, ih hwf.2 hfits.2]
    rfl

mutual

/-- Reading the tokens of a tree adds that tree to the current level. -/
theorem readTokens_flatten {maxDepth calls : Nat} (t : Tree) {levels : List Level}
    {before : List Tree} {tokens rest : List Token} (hwf : t.WellFormed)
    (hfits : t.Fits maxDepth levels.length calls) (htokens : tokens.map Token.mark = t.flatten) :
    readTokens maxDepth levels before (tokens ++ rest) =
      readTokens maxDepth levels (t.unfused.reverse ++ before) rest := by
  match t with
  | leaf token =>
    obtain ⟨s, rfl, hs⟩ := List.map_eq_singleton_iff.mp htokens
    obtain ⟨rfl, hclose⟩ := Token.mark_eq_some.mp hs
    exact readTokens_leaf hwf.1 hclose
  | call function argument =>
    obtain ⟨⟨name, hname⟩, hwf⟩ := hwf
    obtain ⟨s, behind, rfl, hs, hbehind⟩ := List.map_eq_cons_iff.mp htokens
    obtain ⟨rfl, hclose⟩ := Token.mark_eq_some.mp hs
    rw [List.cons_append, readTokens_leaf (by simp [hname]) hclose,
      readTokens_flatten argument hwf hfits.2 hbehind]
    simp [unfused]
  | group opener items =>
    obtain ⟨⟨o, rfl, hopen⟩, hwf⟩ := hwf
    obtain ⟨hdepth, hfits⟩ := hfits
    -- the tokens are the bracket, those of the items and a closing bracket
    simp only [flatten, Option.map_some, Option.toList_some, List.cons_append,
      List.nil_append] at htokens
    obtain ⟨s, behind, rfl, hs, hbehind⟩ := List.map_eq_cons_iff.mp htokens
    obtain ⟨rfl, -⟩ := Token.mark_eq_some.mp hs
    obtain ⟨inner, last, rfl, hinner, hlast⟩ := List.map_eq_append_iff.mp hbehind
    obtain ⟨c, rfl, hc⟩ := List.map_eq_singleton_iff.mp hlast
    have hclose := Token.mark_eq_none.mp hc
    rw [List.cons_append, readTokens_openBracket hopen, if_neg (by omega), List.append_assoc,
      readTokens_flattenAll items hwf hfits hinner, List.singleton_append,
      readTokens_closeBracket_cons hclose]
    simp only [List.append_nil, List.reverse_reverse, List.length_cons, fuse_unfused hwf hfits]
    rfl
termination_by structural t

/-- Reading the tokens of some trees adds those trees to the current level. -/
theorem readTokens_flattenAll {maxDepth : Nat} (items : List Tree) {levels : List Level}
    {before : List Tree} {tokens rest : List Token} (hwf : AllWellFormed items)
    (hfits : AllFit maxDepth levels.length items)
    (htokens : tokens.map Token.mark = flattenAll items) :
    readTokens maxDepth levels before (tokens ++ rest) =
      readTokens maxDepth levels ((items.flatMap unfused).reverse ++ before) rest := by
  match items with
  | [] =>
    obtain rfl := List.map_eq_nil_iff.mp htokens
    rfl
  | t :: items =>
    obtain ⟨first, others, rfl, hfirst, hothers⟩ := List.map_eq_append_iff.mp htokens
    rw [List.append_assoc, readTokens_flatten t hwf.1 hfits.1 hfirst,
      readTokens_flattenAll items hwf.2 hfits.2 hothers]
    simp
termination_by structural items

end

/-- Some tokens make a tree exactly if they are those of well-formed trees that fit under the limit,
and these are the trees. -/
theorem ofTokens_eq_ok_iff {limits : Limits} {tokens : List Token} {root : Tree} :
    ofTokens limits tokens = .ok root ↔
      ∃ items, root = group none items ∧ AllWellFormed items ∧
        AllFit limits.maxDepth 0 items ∧ flattenAll items = tokens.map Token.mark := by
  refine ⟨fun h => ?_, ?_⟩
  · obtain ⟨items, rfl, hwf, htokens⟩ := flatten_of_ofTokens h
    exact ⟨items, rfl, hwf, allFit_of_readTokens levelsFit_nil (List.forall_mem_nil _) h, htokens⟩
  · rintro ⟨items, rfl, hwf, hfits, htokens⟩
    have hread : readTokens limits.maxDepth [] [] (tokens ++ []) =
        readTokens limits.maxDepth [] ((items.flatMap unfused).reverse ++ []) [] :=
      readTokens_flattenAll items hwf hfits htokens.symm
    rw [List.append_nil] at hread
    rw [ofTokens, hread, readTokens, List.append_nil, List.reverse_reverse,
      fuse_unfused hwf hfits]
    rfl

/-- Well-formed trees are read off their tokens, unless the limit is below the number of tokens. -/
theorem ofTokens_of_flatten {limits : Limits} {tokens : List Token} {items : List Tree}
    (hwf : AllWellFormed items) (htokens : tokens.map Token.mark = flattenAll items)
    (hdepth : tokens.length ≤ limits.maxDepth) :
    ofTokens limits tokens = .ok (group none items) := by
  have hlength : (flattenAll items).length = tokens.length := by
    rw [← htokens, List.length_map]
  exact ofTokens_eq_ok_iff.mpr
    ⟨items, rfl, hwf, allFit_of_length items (by omega), htokens.symm⟩

/-! ## Tokens determine their tree -/

/-- Whether a tree can be that of a whole line: well-formed trees without a bracket around them. -/
def IsRoot : Tree → Prop
  | group none items => AllWellFormed items
  | _ => False

theorem isRoot_iff {root : Tree} :
    root.IsRoot ↔ ∃ items, root = group none items ∧ AllWellFormed items := by
  unfold IsRoot
  split
  · exact ⟨fun h => ⟨_, rfl, h⟩, fun ⟨_, hroot, h⟩ => (Tree.group.inj hroot).2 ▸ h⟩
  · rename_i hother
    exact ⟨False.elim, fun ⟨items, hroot, _⟩ => hother items hroot⟩

/-- The tree of some tokens is well-formed and holds all of them, each of them once and in its
place, with only the place left of a closing bracket. No other tree of a line holds them. -/
theorem unique_of_ofTokens {limits : Limits} {tokens : List Token} {root : Tree}
    (h : ofTokens limits tokens = .ok root) :
    root.IsRoot ∧ flattenAll root.items = tokens.map Token.mark ∧
      ∀ other : Tree, other.IsRoot → flattenAll other.items = tokens.map Token.mark →
        other = root := by
  obtain ⟨items, rfl, hwf, htokens⟩ := flatten_of_ofTokens h
  refine ⟨hwf, htokens, fun other hother htokens' => ?_⟩
  obtain ⟨items', rfl, hwf'⟩ := isRoot_iff.mp hother
  -- under a limit that allows for all tokens, both trees are what reading gives
  have hread : ofTokens ⟨tokens.length, 0⟩ tokens = .ok (group none items) :=
    ofTokens_of_flatten hwf htokens.symm (Nat.le_refl _)
  have hread' : ofTokens ⟨tokens.length, 0⟩ tokens = .ok (group none items') :=
    ofTokens_of_flatten hwf' htokens'.symm (Nat.le_refl _)
  exact Except.ok.inj (hread'.symm.trans hread)

/-- A call on a group, and a sign that nothing has folded. -/
theorem unique_of_ofTokens_call :
    let f : Token := ⟨.function "Sin", .negative, true, ⟨1, 4⟩⟩
    let o : Token := ⟨.openBracket, .positive, true, ⟨5, 6⟩⟩
    let x : Token := ⟨.var "x", .positive, false, ⟨6, 7⟩⟩
    let c : Token := ⟨.closeBracket, .negative, true, ⟨8, 9⟩⟩
    let s : Token := ⟨.plus, .positive, false, ⟨9, 10⟩⟩
    let root : Tree := group none [call f (group (some o) [leaf x]), leaf s]
    ofTokens ⟨1, 512⟩ [f, o, x, c, s] = .ok root ∧ root.IsRoot ∧
      flattenAll root.items = [some f, some o, some x, none, some s] ∧
      ∀ other : Tree, other.IsRoot →
        flattenAll other.items = [some f, some o, some x, none, some s] → other = root := by
  intro f o x c s root
  have hread : ofTokens ⟨1, 512⟩ [f, o, x, c, s] = .ok root := rfl
  exact ⟨hread, unique_of_ofTokens hread⟩

end Reckon.Tree
