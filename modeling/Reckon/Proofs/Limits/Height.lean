import Reckon.Proofs.Eval.Faults
import Reckon.Proofs.Grammar.Compile
import Reckon.Proofs.Limits.Nesting

/-!
# How high expressions are

A level of a line becomes at most four levels of nodes: a sum, its products, the inverses in them
and powers. So the height of an expression is bounded by the brackets around an operand and by the
nesting of the tree together: no path down from the root has more than `5 * maxDepth + 5` nodes, and
without variables no evaluation that may open as many nodes runs out of them (`height_of_compile`).
-/

namespace Reckon

namespace EnvOf

/-- Whether no path of steps from an expression has more than a number of nodes. -/
def Within (env : Env) : Nat → Expr → Prop
  | 0, _ => False
  | nodes + 1, e => ∀ e', env.Step e e' → env.Within nodes e'

namespace Within

variable {env : Env} {n : Nat} {e : Expr}

theorem mono {m : Nat} (h : env.Within m e) (hle : m ≤ n) : env.Within n e := by
  induction m generalizing n e with
  | zero => exact h.elim
  | succ m ih =>
    obtain ⟨n, rfl⟩ : ∃ nodes, n = nodes + 1 := ⟨n - 1, by omega⟩
    exact fun e' hstep => ih (h e' hstep) (by omega)

theorem length_le {path : List Expr} (h : env.Within n e) (hpath : (e :: path).IsChain env.Step) :
    (e :: path).length ≤ n := by
  induction n generalizing e path with
  | zero => exact h.elim
  | succ n ih =>
    cases path with
    | nil => exact Nat.succ_le_succ (Nat.zero_le n)
    | cons e' path =>
      obtain ⟨hstep, hrest⟩ := List.isChain_cons_cons.mp hpath
      exact Nat.succ_le_succ (ih (h e' hstep) hrest)

/-- Only from a variable there are other steps than down. -/
theorem of_children (hvar : ∀ name sign, e ≠ .var name sign)
    (h : ∀ e' ∈ e.children, env.Within n e') : env.Within (n + 1) e := by
  intro e' hstep
  cases hstep with
  | child hchild => exact h e' hchild
  | @binding name sign _ _ => exact absurd rfl (hvar name sign)

theorem literal (x : Float) (sign : Sign) : env.Within (n + 1) (.literal x sign) :=
  of_children nofun (List.forall_mem_nil _)

theorem var {name : String} (h : env.lookup? name = none) (sign : Sign) :
    env.Within (n + 1) (.var name sign) := by
  intro e' hstep
  cases hstep with
  | child hchild => contradiction
  | binding hname => rw [h] at hname; contradiction

theorem call {argument : Expr} (h : env.Within n argument) (name : String) (sign : Sign) :
    env.Within (n + 1) (.call name argument sign) :=
  of_children nofun (List.forall_mem_singleton.mpr h)

theorem sum {terms : List Expr} (h : ∀ e ∈ terms, env.Within n e) (sign : Sign) :
    env.Within (n + 1) (.sum terms sign) := of_children nofun h

theorem product {factors : List Expr} (h : ∀ e ∈ factors, env.Within n e) (sign : Sign) :
    env.Within (n + 1) (.product factors sign) := of_children nofun h

theorem power {operands : List Expr} (h : ∀ e ∈ operands, env.Within n e) (sign : Sign) :
    env.Within (n + 1) (.power operands sign) := of_children nofun h

/-! ## What assembling adds -/

theorem tower {base : Expr} {exponents : List Expr} (hbase : env.Within n base)
    (h : ∀ e ∈ exponents, env.Within n e) : env.Within (n + 1) (Expr.tower base exponents) := by
  rw [Expr.tower]
  split
  · exact hbase.mono (Nat.le_succ n)
  · exact power (List.forall_mem_cons.mpr ⟨hbase, h⟩) _

theorem inverse (h : env.Within (n + 1) e) : env.Within (n + 2) e.inverse :=
  power (List.forall_mem_cons.mpr ⟨h, List.forall_mem_singleton.mpr (literal _ _)⟩) _

theorem term {base : Expr} {exponents factors : List Expr} (hbase : env.Within n base)
    (hexponents : ∀ e ∈ exponents, env.Within n e) (h : ∀ e ∈ factors, env.Within (n + 2) e) :
    env.Within (n + 3) (Expr.term base exponents factors) := by
  rw [Expr.term]
  split
  · exact hbase.mono (Nat.le_add_right n 3)
  · have hfirst := (tower hbase hexponents).mono (Nat.le_succ (n + 1))
    exact product (List.forall_mem_cons.mpr ⟨hfirst, h⟩) _

end Within

/-- Whether an assembly is made of operands from which no path has more than `n` nodes. -/
structure Assembles (env : Env) (n : Nat) (a : Expr.Assembly) : Prop where
  exponents : ∀ e ∈ a.exponents, env.Within n e
  factors : ∀ e ∈ a.factors, env.Within (n + 2) e
  terms : ∀ e ∈ a.terms, env.Within (n + 3) e

variable {env : Env} {n : Nat}

theorem Assembles.join {a : Expr.Assembly} (h : env.Assembles n a) {e : Expr}
    (he : env.Within n e) (joint : Joint) : env.Assembles n (a.join joint e) := by
  obtain ⟨hexponents, hfactors, hterms⟩ := h
  have hnone {m : Nat} : ∀ e ∈ ([] : List Expr), env.Within m e := List.forall_mem_nil _
  have htower := he.tower hexponents
  cases joint with
  | raises => exact ⟨List.forall_mem_cons.mpr ⟨he, hexponents⟩, hfactors, hterms⟩
  | multiplies =>
    exact ⟨hnone, List.forall_mem_cons.mpr ⟨htower.mono (Nat.le_succ _), hfactors⟩, hterms⟩
  | divides => exact ⟨hnone, List.forall_mem_cons.mpr ⟨htower.inverse, hfactors⟩, hterms⟩
  | adds =>
    exact ⟨hnone, hnone, List.forall_mem_cons.mpr ⟨he.term hexponents hfactors, hterms⟩⟩

/-- Between the terms of a level and its operands there are at most three nodes. -/
theorem within_assemble {parts : List (Joint × Expr)} (h : ∀ part ∈ parts, env.Within n part.2) :
    ∀ e ∈ Expr.assemble parts, env.Within (n + 3) e := by
  have hall : env.Assembles n
      (parts.foldr (fun part a => a.join part.1 part.2) Expr.Assembly.empty) := by
    induction parts with
    | nil => exact ⟨List.forall_mem_nil _, List.forall_mem_nil _, List.forall_mem_nil _⟩
    | cons part parts ih =>
      rw [List.forall_mem_cons] at h
      exact (ih h.2).join h.1 part.1
  exact hall.terms

/-- What bounds a first part and what bounds the others bound all of them together. -/
theorem within_cons {k l : Nat} {part : Joint × Expr} {parts : List (Joint × Expr)}
    (hfirst : env.Within (n + k + 1) part.2) (h : ∀ other ∈ parts, env.Within (n + l + 1) other.2) :
    ∀ other ∈ part :: parts, env.Within (n + max k l + 1) other.2 :=
  List.forall_mem_cons.mpr
    ⟨hfirst.mono (by omega), fun other hother => (h other hother).mono (by omega)⟩

/-! ## What reading a tree adds -/

/-- Whether no variable among some tokens is bound. -/
def LeavesUnbound (env : Env) (marks : List (Option Token)) : Prop :=
  ∀ t name, some t ∈ marks → t.kind = .var name → env.lookup? name = none

theorem LeavesUnbound.mono {marks marks' : List (Option Token)} (h : env.LeavesUnbound marks)
    (hsub : marks' ⊆ marks) : env.LeavesUnbound marks' :=
  fun t name ht => h t name (hsub ht)

end EnvOf

namespace Expr

open Reckon.Tree (nestingAll flattenAll AllFit)

variable {env : Env} {limits : Limits}

mutual

/-- Each bracket that may still open stands for three nodes, besides the levels that are there. -/
theorem within_operand {maxDepth depth calls room below : Nat} {e : Expr} (t : Tree)
    (hroom : maxDepth = depth + room) (hfits : t.Fits maxDepth depth calls)
    (hvars : env.LeavesUnbound t.flatten) (h : operand limits below t = .ok e) :
    env.Within (3 * room + t.nesting + 1) e := by
  match t with
  | .leaf token =>
    rw [operand] at h
    split at h
    · obtain rfl := Except.ok.inj h
      exact .literal _ _
    · rename_i hkind
      obtain rfl := Except.ok.inj h
      exact .var (hvars token _ List.mem_cons_self hkind) _
    · contradiction
  | .group opener items =>
    -- one bracket less may open inside, for the nodes of its terms; the sum counts as a level
    obtain ⟨hdepth, hfits⟩ := hfits
    obtain ⟨room, rfl⟩ : ∃ inside, room = inside + 1 := ⟨room - 1, by omega⟩
    rw [operand] at h
    obtain ⟨inside, -, h⟩ := bind_eq_ok.mp h
    obtain ⟨parts, hparts, h⟩ := bind_eq_ok.mp h
    obtain rfl := Except.ok.inj h
    have hinside : env.LeavesUnbound (flattenAll items) := hvars.mono fun mark hmark => by
      simp [Tree.flatten, hmark]
    have hbelow : maxDepth = depth + 1 + room := by omega
    have hterms := EnvOf.within_assemble (within_row items hbelow hfits hinside hparts)
    refine (EnvOf.Within.sum hterms _).mono ?_
    rw [Tree.nesting]
    omega
  | .call token argument =>
    rw [operand] at h
    split at h
    · obtain ⟨inside, -, h⟩ := bind_eq_ok.mp h
      obtain ⟨e', he', h⟩ := bind_eq_ok.mp h
      obtain rfl := Except.ok.inj h
      have hinside : env.LeavesUnbound argument.flatten :=
        hvars.mono (List.subset_cons_self _ _)
      exact (within_operand argument hroom hfits.2 hinside he').call _ _
    · contradiction
termination_by structural t

theorem within_row {maxDepth depth room below : Nat} {parts : List (Joint × Expr)}
    (items : List Tree) (hroom : maxDepth = depth + room) (hfits : AllFit maxDepth depth items)
    (hvars : env.LeavesUnbound (flattenAll items)) (h : row limits below items = .ok parts) :
    ∀ part ∈ parts, env.Within (3 * room + nestingAll items + 1) part.2 := by
  match items with
  | [] =>
    obtain rfl := Except.ok.inj h
    exact List.forall_mem_nil _
  | item :: rest =>
    obtain ⟨e, he, h⟩ := bind_eq_ok.mp h
    obtain ⟨others, hothers, h⟩ := bind_eq_ok.mp h
    obtain rfl := Except.ok.inj h
    exact EnvOf.within_cons
      (within_operand item hroom hfits.1 (hvars.mono (List.subset_append_left _ _)) he)
      (within_rowAfter rest hroom hfits.2 (hvars.mono (List.subset_append_right _ _)) hothers)
termination_by structural items

theorem within_rowAfter {maxDepth depth room below : Nat} {parts : List (Joint × Expr)}
    (items : List Tree) (hroom : maxDepth = depth + room) (hfits : AllFit maxDepth depth items)
    (hvars : env.LeavesUnbound (flattenAll items)) (h : rowAfter limits below items = .ok parts) :
    ∀ part ∈ parts, env.Within (3 * room + nestingAll items + 1) part.2 := by
  match items with
  | [] =>
    obtain rfl := Except.ok.inj h
    exact List.forall_mem_nil _
  | item :: rest =>
    have hafter := hvars.mono (List.subset_append_right item.flatten (flattenAll rest))
    rw [rowAfter] at h
    split at h
    · rename_i hoperator
      rw [nestingAll, Tree.nesting_of_operator? hoperator, Nat.zero_max]
      match rest with
      | [] => contradiction
      | right :: rest =>
        obtain ⟨e, he, h⟩ := bind_eq_ok.mp h
        obtain ⟨others, hothers, h⟩ := bind_eq_ok.mp h
        obtain rfl := Except.ok.inj h
        exact EnvOf.within_cons
          (within_operand right hroom hfits.2.1 (hafter.mono (List.subset_append_left _ _)) he)
          (within_rowAfter rest hroom hfits.2.2 (hafter.mono (List.subset_append_right _ _))
            hothers)
    · obtain ⟨e, he, h⟩ := bind_eq_ok.mp h
      obtain ⟨others, hothers, h⟩ := bind_eq_ok.mp h
      obtain rfl := Except.ok.inj h
      exact EnvOf.within_cons
        (within_operand item hroom hfits.1 (hvars.mono (List.subset_append_left _ _)) he)
        (within_rowAfter rest hroom hfits.2 hafter hothers)
termination_by structural items

end

end Expr

/-! ## The height of a line -/

/-- The nesting limit bounds the paths that an evaluation can take through the expression of a line
without leaving it for what a variable is bound to. -/
theorem within_of_compile {env : Env} {limits : Limits} {line : String} {e : Expr}
    (h : compile limits line = .ok e)
    (hvars : ∀ tokens, tokenize line = .ok tokens → ∀ t ∈ tokens, ∀ name, t.kind = .var name →
      env.lookup? name = none) : env.Within (5 * limits.maxDepth + 5) e := by
  obtain ⟨tokens, tree, htokens, htree, he⟩ := compile_eq_ok.mp h
  obtain ⟨items, rfl, -, hfits, hflat⟩ := Tree.ofTokens_eq_ok_iff.mp htree
  have hlevels := (Expr.ofTree_nests none items).ok e he
  obtain ⟨parts, hparts, he⟩ := bind_eq_ok.mp he
  obtain rfl := Except.ok.inj he
  have hunbound : env.LeavesUnbound (Tree.flattenAll items) := by
    intro t name ht hkind
    rw [hflat] at ht
    obtain ⟨s, hs, hmark⟩ := List.mem_map.mp ht
    obtain ⟨rfl, -⟩ := Token.mark_eq_some.mp hmark
    exact hvars tokens htokens s hs name hkind
  have hterms :=
    EnvOf.within_assemble (Expr.within_row items (Nat.zero_add _).symm hfits hunbound hparts)
  refine (EnvOf.Within.sum hterms _).mono ?_
  rw [Limits.treeDepth] at hlevels
  omega

/-- No path down the expression of a line has more than `5 * maxDepth + 5` nodes. Where the line has
no variables and all functions are built in, an evaluation that may open as many nodes does not run
out of them. -/
theorem height_of_compile {limits : Limits} {line : String} {e : Expr}
    (h : compile limits line = .ok e) :
    (∀ path : List Expr, (e :: path).IsChain (fun above below => below ∈ above.children) →
      (e :: path).length ≤ 5 * limits.maxDepth + 5) ∧
    ((∀ tokens, tokenize line = .ok tokens → ∀ t ∈ tokens, ∀ name, t.kind ≠ .var name) →
      ∀ (env : Env) (m : Machine),
        (∀ name program, env.function? name = some program →
          (Env.builtins env.limits).function? name = some program) →
        m.openNodes + (5 * limits.maxDepth + 5) ≤ env.limits.maxEvalDepth →
        ∀ limit, (evaluate (some env) e m).1 ≠ .error (.tooDeep limit)) := by
  refine ⟨fun path hpath => ?_, fun hvars env m hfunctions hnodes limit hdeep => ?_⟩
  · -- where nothing is bound, all steps lead down
    have hwithin : (Env.empty limits).Within (5 * limits.maxDepth + 5) e :=
      within_of_compile h fun _ _ _ _ _ _ => rfl
    exact hwithin.length_le (hpath.imp fun above below hbelow => .child hbelow)
  · have hwithin : env.Within (5 * limits.maxDepth + 5) e :=
      within_of_compile h fun tokens htokens t ht name hkind =>
        absurd hkind (hvars tokens htokens t ht name)
    have hstrict := EnvOf.callsStrict_of_builtin hfunctions e
    obtain ⟨-, path, hlength, hpath⟩ := hasFault_of_evaluate hstrict hdeep
    have := hwithin.length_le hpath
    rw [List.length_cons] at this
    omega

/-- Two divisions by powers, one in the call that the other one divides by. The path to the last
exponent is as long as a path may be under this limit. -/
theorem height_of_compile_quotient :
    let number (x : Float) : Expr := .literal x .positive
    let quotient (x : Float) (divisor : Expr) : Expr :=
      .sum [.product [number x, divisor.inverse] .positive] .positive
    let inner : Expr := .power [number 2, number 3] .positive
    let call : Expr := .call "Sin" (quotient 1 inner) .positive
    let outer : Expr := .power [call, number 5] .positive
    let e : Expr := quotient 4 outer
    compile ⟨1, 10⟩ "4/Sin(1/2^3)^5" = .ok e ∧
      (∃ path : List Expr, (e :: path).IsChain (fun above below => below ∈ above.children) ∧
        (e :: path).length = 10) ∧
      (∀ path : List Expr, (e :: path).IsChain (fun above below => below ∈ above.children) →
        (e :: path).length ≤ 10) ∧
      ∀ limit, (evaluate (some (Env.builtins ⟨1, 10⟩)) e (.start ⟨0⟩)).1 ≠
        .error (.tooDeep limit) := by
  intro number quotient inner call outer e
  have htokens : tokenize "4/Sin(1/2^3)^5" = .ok [.plain (.number 4) ⟨0, 1⟩,
      .plain .divide ⟨1, 2⟩, .plain (.function "Sin") ⟨2, 5⟩, .plain .openBracket ⟨5, 6⟩,
      .plain (.number 1) ⟨6, 7⟩, .plain .divide ⟨7, 8⟩, .plain (.number 2) ⟨8, 9⟩,
      .plain .power ⟨9, 10⟩, .plain (.number 3) ⟨10, 11⟩, .plain .closeBracket ⟨11, 12⟩,
      .plain .power ⟨12, 13⟩, .plain (.number 5) ⟨13, 14⟩] := by decide +kernel
  have hcompile : compile ⟨1, 10⟩ "4/Sin(1/2^3)^5" = .ok e :=
    compile_eq_ok.mpr ⟨_, _, htokens, rfl, rfl⟩
  obtain ⟨hpaths, hvalue⟩ := height_of_compile hcompile
  refine ⟨hcompile, ?_, hpaths, hvalue ?_ _ _ (fun name program h => h) (by decide)⟩
  · refine ⟨[.product [number 4, outer.inverse] .positive, outer.inverse, outer, call,
      quotient 1 inner, .product [number 1, inner.inverse] .positive, inner.inverse, inner,
      number 3], ?_, rfl⟩
    simp [e, quotient, outer, call, inner, Expr.inverse, Expr.children]
  · intro tokens h t ht name
    obtain rfl := Except.ok.inj (htokens.symm.trans h)
    revert t
    simp [Token.plain]

end Reckon
