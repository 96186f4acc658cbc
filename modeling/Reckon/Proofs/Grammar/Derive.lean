import Reckon.Proofs.Grammar.Trees
import Reckon.Proofs.Outcome

/-!
# From trees to derivations

Well-formed trees that are read as an expression come from a derivation. A level is taken apart from
its end: `exists_rest` collects the exponents, factors and terms that an operand further in front
still has to take up, in step with how `Expr.assemble` joins the operands.
-/

namespace Reckon.Grammar

open Reckon.Expr (operand row rowAfter)
open Reckon.Tree (flatten flattenAll WellFormed AllWellFormed)

/-- Derivations of what follows an operand: the exponents of that operand, the further factors of
its term and the terms after it. They stand for the given assembly. -/
def Continues (ts : List Token) (a : Expr.Assembly) : Prop :=
  ∃ (us vs ws : List Token) (exponents : Exponents us) (factors : Factors vs)
    (addends : Addends ws),
    ts = us ++ (vs ++ ws) ∧ a = ⟨exponents.exprs, factors.exprs, addends.exprs⟩

theorem continues_nil : Continues [] .empty := ⟨[], [], [], .nil, .nil, .nil, rfl, rfl⟩

section Steps

variable {t : Token} {ts rest : List Token} {a : Expr.Assembly}

theorem Continues.raises (ht : t.kind = .power) (e : Operand ts) (h : Continues rest a) :
    Continues (t :: (ts ++ rest)) (a.join .raises e.expr) := by
  obtain ⟨us, vs, ws, exponents, factors, addends, rfl, rfl⟩ := h
  exact ⟨_, vs, ws, .cons ht e exponents, factors, addends, by simp, rfl⟩

theorem Continues.times (ht : t.kind = .times) (e : Operand ts) (h : Continues rest a) :
    Continues (t :: (ts ++ rest)) (a.join .multiplies e.expr) := by
  obtain ⟨us, vs, ws, exponents, factors, addends, rfl, rfl⟩ := h
  refine ⟨[], _, ws, .nil, .cons (.times ht (.mk e exponents)) factors, addends, by simp, ?_⟩
  simp [Expr.Assembly.join, tower_exprs, Exponents.exprs, Factors.exprs, Factor.expr]

theorem Continues.divides (ht : t.kind = .divide) (e : Operand ts) (h : Continues rest a) :
    Continues (t :: (ts ++ rest)) (a.join .divides e.expr) := by
  obtain ⟨us, vs, ws, exponents, factors, addends, rfl, rfl⟩ := h
  refine ⟨[], _, ws, .nil, .cons (.divide ht (.mk e exponents)) factors, addends, by simp, ?_⟩
  simp [Expr.Assembly.join, tower_exprs, Exponents.exprs, Factors.exprs, Factor.expr]

theorem startsSigned_append (e : Operand ts) (us : List Token) :
    startsSigned (ts ++ us) = startsSigned ts := by
  cases e <;> rfl

theorem Continues.multiplies (hts : startsSigned ts = false) (e : Operand ts)
    (h : Continues rest a) : Continues (ts ++ rest) (a.join .multiplies e.expr) := by
  obtain ⟨us, vs, ws, exponents, factors, addends, rfl, rfl⟩ := h
  have hpower : startsSigned (ts ++ us) = false := by rw [startsSigned_append e, hts]
  refine ⟨[], _, ws, .nil, .cons (.next hpower (.mk e exponents)) factors, addends, by simp, ?_⟩
  simp [Expr.Assembly.join, tower_exprs, Exponents.exprs, Factors.exprs, Factor.expr]

theorem Continues.adds (hts : startsSigned ts = true) (e : Operand ts) (h : Continues rest a) :
    Continues (ts ++ rest) (a.join .adds e.expr) := by
  obtain ⟨us, vs, ws, exponents, factors, addends, rfl, rfl⟩ := h
  have hterm : startsSigned (ts ++ us ++ vs) = true := by
    rw [List.append_assoc, startsSigned_append e, hts]
  refine ⟨[], [], _, .nil, .nil, .cons hterm (.mk (.mk e exponents) factors) addends, by simp, ?_⟩
  simp [Expr.Assembly.join, term_exprs, Exponents.exprs, Factors.exprs, Addends.exprs]

end Steps

theorem explicitSign_eq {t : Tree} {ts : List Token} (hwf : t.WellFormed)
    (hts : t.flatten = ts.map Token.mark) : t.explicitSign = startsSigned ts := by
  cases t with
  | leaf token =>
    obtain ⟨s, rfl, hs⟩ := List.map_eq_singleton_iff.mp hts.symm
    obtain ⟨rfl, -⟩ := Token.mark_eq_some.mp hs
    rfl
  | group opener items =>
    obtain ⟨⟨o, rfl, -⟩, -⟩ := hwf
    obtain ⟨s, behind, rfl, hs, -⟩ := List.map_eq_cons_iff.mp hts.symm
    obtain ⟨rfl, -⟩ := Token.mark_eq_some.mp hs
    rfl
  | call function argument =>
    obtain ⟨s, behind, rfl, hs, -⟩ := List.map_eq_cons_iff.mp hts.symm
    obtain ⟨rfl, -⟩ := Token.mark_eq_some.mp hs
    rfl

theorem operator?_eq_some {t : Tree} {s : Token} {joint : Joint}
    (h : t.operator? = some (s, joint)) :
    t = .leaf s ∧ (s.kind = .times ∧ joint = .multiplies ∨ s.kind = .divide ∧ joint = .divides ∨
      s.kind = .power ∧ joint = .raises) := by
  unfold Tree.operator? at h
  split at h
  · split at h
    all_goals first
      | contradiction
      | obtain ⟨rfl, rfl⟩ := Prod.mk.inj (Option.some.inj h)
        simp [*]
  · contradiction

theorem spells_cons {t : Tree} {items : List Tree} {ts : List Token}
    (h : Spells ts (t :: items)) :
    ∃ us vs, ts = us ++ vs ∧ t.WellFormed ∧ t.flatten = us.map Token.mark ∧ Spells vs items := by
  obtain ⟨⟨hwf, hwfs⟩, hts⟩ := h
  obtain ⟨us, vs, rfl, hus, hvs⟩ := List.map_eq_append_iff.mp hts.symm
  exact ⟨us, vs, rfl, hwf, hus.symm, hwfs, hvs.symm⟩

mutual

/-- A tree that stands for an expression comes from an operand. -/
theorem exists_operand {limits : Limits} {depth : Nat} (t : Tree) {ts : List Token} {e : Expr}
    (hwf : t.WellFormed) (hts : t.flatten = ts.map Token.mark)
    (h : operand limits depth t = .ok e) : ∃ a : Operand ts, a.expr = e := by
  match t with
  | .leaf token =>
    obtain ⟨s, rfl, hs⟩ := List.map_eq_singleton_iff.mp hts.symm
    obtain ⟨rfl, -⟩ := Token.mark_eq_some.mp hs
    rw [operand] at h
    split at h
    · obtain rfl := Except.ok.inj h
      exact ⟨.number _ ‹_›, rfl⟩
    · obtain rfl := Except.ok.inj h
      exact ⟨.var _ ‹_›, rfl⟩
    · contradiction
  | .group opener items =>
    obtain ⟨⟨o, rfl, ho⟩, hwfs⟩ := hwf
    simp only [flatten, Option.map_some, Option.toList_some, List.cons_append,
      List.nil_append] at hts
    obtain ⟨s, behind, rfl, hs, hbehind⟩ := List.map_eq_cons_iff.mp hts.symm
    obtain ⟨rfl, -⟩ := Token.mark_eq_some.mp hs
    obtain ⟨inner, last, rfl, hinner, hlast⟩ := List.map_eq_append_iff.mp hbehind
    obtain ⟨c, rfl, hc⟩ := List.map_eq_singleton_iff.mp hlast
    rw [operand] at h
    obtain ⟨below, -, h⟩ := bind_eq_ok.mp h
    obtain ⟨parts, hparts, h⟩ := bind_eq_ok.mp h
    obtain rfl := Except.ok.inj h
    obtain ⟨level, hlevel⟩ := exists_sum items ⟨hwfs, hinner.symm⟩ hparts
    refine ⟨.bracket ho level (Token.mark_eq_none.mp hc), ?_⟩
    rw [Operand.expr, hlevel]
    rfl
  | .call function argument =>
    obtain ⟨⟨name, hname⟩, hwf⟩ := hwf
    obtain ⟨s, behind, rfl, hs, hbehind⟩ := List.map_eq_cons_iff.mp hts.symm
    obtain ⟨rfl, -⟩ := Token.mark_eq_some.mp hs
    simp only [operand, hname] at h
    obtain ⟨below, -, h⟩ := bind_eq_ok.mp h
    obtain ⟨e', he', h⟩ := bind_eq_ok.mp h
    obtain rfl := Except.ok.inj h
    obtain ⟨a, rfl⟩ := exists_operand argument hwf hbehind.symm he'
    exact ⟨.call name hname a, rfl⟩
termination_by structural t

/-- What can be read after an operand continues a derivation. -/
theorem exists_rest {limits : Limits} {depth : Nat} (items : List Tree) {ts : List Token}
    {parts : List (Joint × Expr)} (hts : Spells ts items)
    (h : rowAfter limits depth items = .ok parts) : Continues ts (joinAll parts .empty) := by
  match items with
  | [] =>
    obtain rfl := Except.ok.inj h
    obtain rfl := List.map_eq_nil_iff.mp hts.2.symm
    exact continues_nil
  | item :: items =>
    obtain ⟨us, vs, rfl, hwf, hus, hvs⟩ := spells_cons hts
    rw [rowAfter] at h
    split at h
    · -- an operator and its right operand
      rename_i token joint hop
      obtain ⟨rfl, hkind⟩ := operator?_eq_some hop
      obtain ⟨s, rfl, hs⟩ := List.map_eq_singleton_iff.mp hus.symm
      obtain ⟨rfl, -⟩ := Token.mark_eq_some.mp hs
      match items with
      | [] => contradiction
      | right :: items =>
        obtain ⟨us, ws, rfl, hwf, hus, hws⟩ := spells_cons hvs
        obtain ⟨e, he, h⟩ := bind_eq_ok.mp h
        obtain ⟨others, hothers, h⟩ := bind_eq_ok.mp h
        obtain rfl := Except.ok.inj h
        obtain ⟨a, rfl⟩ := exists_operand right hwf hus he
        have hrest := exists_rest items hws hothers
        rcases hkind with ⟨hkind, rfl⟩ | ⟨hkind, rfl⟩ | ⟨hkind, rfl⟩
        · exact hrest.times hkind a
        · exact hrest.divides hkind a
        · exact hrest.raises hkind a
    · -- a further operand
      obtain ⟨e, he, h⟩ := bind_eq_ok.mp h
      obtain ⟨others, hothers, h⟩ := bind_eq_ok.mp h
      obtain rfl := Except.ok.inj h
      obtain ⟨a, rfl⟩ := exists_operand item hwf hus he
      have hrest := exists_rest items hvs hothers
      have hsign := explicitSign_eq hwf hus
      change Continues _ ((joinAll others .empty).join item.joint a.expr)
      rw [Tree.joint, hsign]
      cases hsigned : startsSigned us with
      | true => exact hrest.adds hsigned a
      | false => exact hrest.multiplies hsigned a
termination_by structural items

/-- The trees of a level that stand for an expression come from a sum. -/
theorem exists_sum {limits : Limits} {depth : Nat} (items : List Tree) {ts : List Token}
    {parts : List (Joint × Expr)} (hts : Spells ts items)
    (h : row limits depth items = .ok parts) : ∃ s : Sum ts, s.exprs = Expr.assemble parts := by
  match items with
  | [] =>
    obtain rfl := Except.ok.inj h
    obtain rfl := List.map_eq_nil_iff.mp hts.2.symm
    exact ⟨.empty, rfl⟩
  | item :: items =>
    obtain ⟨us, vs, rfl, hwf, hus, hvs⟩ := spells_cons hts
    rw [row] at h
    obtain ⟨e, he, h⟩ := bind_eq_ok.mp h
    obtain ⟨others, hothers, h⟩ := bind_eq_ok.mp h
    obtain rfl := Except.ok.inj h
    obtain ⟨a, rfl⟩ := exists_operand item hwf hus he
    obtain ⟨us', vs', ws', exponents, factors, addends, rfl, hjoin⟩ := exists_rest items hvs hothers
    have hsum : us ++ (us' ++ (vs' ++ ws')) = us ++ us' ++ vs' ++ ws' := by simp
    rw [hsum]
    refine ⟨.terms (.mk (.mk a exponents) factors) addends, ?_⟩
    change _ = ((joinAll others .empty).join .adds a.expr).terms
    rw [hjoin, Sum.exprs, ← term_exprs]
    rfl
termination_by structural items

end

end Reckon.Grammar
