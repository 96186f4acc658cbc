import Reckon.Expr.OfTree
import Reckon.Proofs.Grammar.Basic
import Reckon.Proofs.Tree.Flatten

/-!
# Derivations and trees

A derivation shapes the tree of its tokens (`Operand.tree`, `Sum.items`), and that tree stands for
the expression of the derivation (`row_items`). The other way round, a tree that has an expression
comes with a derivation of its tokens that stands for the same expression (`exists_sum`).
-/

namespace Reckon.Grammar

open Reckon.Tree (flatten flattenAll WellFormed AllWellFormed)

/-! ## The tree of a derivation -/

mutual

/-- The tree of an operand. -/
def Operand.tree {ts : List Token} : Operand ts → Tree
  | .number (t := t) _ _ => .leaf t
  | .var (t := t) _ _ => .leaf t
  | .bracket (o := o) _ level _ => .group (some o) level.items
  | .call (f := f) _ _ argument => .call f argument.tree
termination_by structural a => a

/-- The trees of a base and its exponents. -/
def Power.items {ts : List Token} : Power ts → List Tree
  | .mk base exponents => base.tree :: exponents.items
termination_by structural a => a

/-- The trees of some exponents, each after its `^`. -/
def Exponents.items {ts : List Token} : Exponents ts → List Tree
  | .nil => []
  | .cons (t := t) _ exponent rest => .leaf t :: exponent.tree :: rest.items
termination_by structural a => a

/-- The trees of a factor, the operator in front if there is one. -/
def Factor.items {ts : List Token} : Factor ts → List Tree
  | .times (t := t) _ power => .leaf t :: power.items
  | .divide (t := t) _ power => .leaf t :: power.items
  | .next _ power => power.items
termination_by structural a => a

/-- The trees of some factors. -/
def Factors.items {ts : List Token} : Factors ts → List Tree
  | .nil => []
  | .cons factor rest => factor.items ++ rest.items
termination_by structural a => a

/-- The trees of a term. -/
def Term.items {ts : List Token} : Term ts → List Tree
  | .mk first factors => first.items ++ factors.items
termination_by structural a => a

/-- The trees of some further terms. -/
def Addends.items {ts : List Token} : Addends ts → List Tree
  | .nil => []
  | .cons _ term rest => term.items ++ rest.items
termination_by structural a => a

/-- The trees of a sum. -/
def Sum.items {ts : List Token} : Sum ts → List Tree
  | .empty => []
  | .terms first rest => first.items ++ rest.items
termination_by structural a => a

end

/-- Trees that are well-formed and hold given tokens. -/
def Spells (ts : List Token) (items : List Tree) : Prop :=
  AllWellFormed items ∧ flattenAll items = ts.map Token.mark

theorem Spells.nil : Spells [] [] := ⟨trivial, rfl⟩

theorem Spells.append {ts us : List Token} {items others : List Tree} (h : Spells ts items)
    (h' : Spells us others) : Spells (ts ++ us) (items ++ others) := by
  refine ⟨?_, ?_⟩
  · rw [Tree.allWellFormed_iff]
    intro t ht
    rcases List.mem_append.mp ht with ht | ht
    · exact Tree.allWellFormed_iff.mp h.1 t ht
    · exact Tree.allWellFormed_iff.mp h'.1 t ht
  · rw [Tree.flattenAll_append, h.2, h'.2, List.map_append]

theorem spells_single {ts : List Token} {t : Tree} (hwf : t.WellFormed)
    (hts : t.flatten = ts.map Token.mark) : Spells ts [t] :=
  ⟨⟨hwf, trivial⟩, by rw [flattenAll, hts, flattenAll, List.append_nil]⟩

theorem spells_leaf {t : Token} (hopen : t.kind ≠ .openBracket) (hclose : t.kind ≠ .closeBracket)
    (hfun : ∀ name, t.kind ≠ .function name) : Spells [t] [.leaf t] :=
  spells_single ⟨hopen, hclose, hfun⟩ (by simp [flatten, Token.mark_of_ne hclose])

mutual

theorem Operand.spells_tree {ts : List Token} (a : Operand ts) : Spells ts [a.tree] := by
  match a with
  | .number value h => exact spells_leaf (by simp [h]) (by simp [h]) (by simp [h])
  | .var name h => exact spells_leaf (by simp [h]) (by simp [h]) (by simp [h])
  | .bracket (o := o) ho level hc =>
    obtain ⟨hwf, hflat⟩ := level.spells_items
    refine spells_single ⟨⟨o, rfl, ho⟩, hwf⟩ ?_
    rw [Operand.tree, flatten, hflat]
    simp [Token.mark_of_ne, ho, Token.mark_eq_none.mpr hc]
  | .call name h argument =>
    obtain ⟨hwf, hflat⟩ := argument.spells_tree
    refine spells_single ⟨⟨name, h⟩, hwf.1⟩ ?_
    rw [flattenAll, flattenAll, List.append_nil] at hflat
    rw [Operand.tree, flatten, hflat]
    simp [Token.mark_of_ne, h]
termination_by structural a

theorem Power.spells_items {ts : List Token} (a : Power ts) : Spells ts a.items := by
  match a with
  | .mk base exponents => exact base.spells_tree.append exponents.spells_items
termination_by structural a

theorem Exponents.spells_items {ts : List Token} (a : Exponents ts) : Spells ts a.items := by
  match a with
  | .nil => exact .nil
  | .cons h exponent rest =>
    exact (spells_leaf (by simp [h]) (by simp [h]) (by simp [h])).append
      (exponent.spells_tree.append rest.spells_items)
termination_by structural a

theorem Factor.spells_items {ts : List Token} (a : Factor ts) : Spells ts a.items := by
  match a with
  | .times h power =>
    exact (spells_leaf (by simp [h]) (by simp [h]) (by simp [h])).append power.spells_items
  | .divide h power =>
    exact (spells_leaf (by simp [h]) (by simp [h]) (by simp [h])).append power.spells_items
  | .next h power => exact power.spells_items
termination_by structural a

theorem Factors.spells_items {ts : List Token} (a : Factors ts) : Spells ts a.items := by
  match a with
  | .nil => exact .nil
  | .cons factor rest => exact factor.spells_items.append rest.spells_items
termination_by structural a

theorem Term.spells_items {ts : List Token} (a : Term ts) : Spells ts a.items := by
  match a with
  | .mk first factors => exact first.spells_items.append factors.spells_items
termination_by structural a

theorem Addends.spells_items {ts : List Token} (a : Addends ts) : Spells ts a.items := by
  match a with
  | .nil => exact .nil
  | .cons h term rest => exact term.spells_items.append rest.spells_items
termination_by structural a

/-- The trees of a sum hold its tokens. -/
theorem Sum.spells_items {ts : List Token} (a : Sum ts) : Spells ts a.items := by
  match a with
  | .empty => exact .nil
  | .terms first rest => exact first.spells_items.append rest.spells_items
termination_by structural a

end

/-! ## The row of a derivation -/

/-- The joined operands of a power that is joined by `joint`. -/
def Power.row {ts : List Token} (joint : Joint) : Power ts → List (Joint × Expr)
  | .mk base exponents => (joint, base.expr) :: exponents.exprs.map fun e => (.raises, e)

/-- The joined operands of a factor. -/
def Factor.row {ts : List Token} : Factor ts → List (Joint × Expr)
  | .times _ power => power.row .multiplies
  | .divide _ power => power.row .divides
  | .next _ power => power.row .multiplies

/-- The joined operands of some factors. -/
def Factors.row {ts : List Token} : Factors ts → List (Joint × Expr)
  | .nil => []
  | .cons factor rest => factor.row ++ rest.row

/-- The joined operands of a term. -/
def Term.row {ts : List Token} : Term ts → List (Joint × Expr)
  | .mk first factors => first.row .adds ++ factors.row

/-- The joined operands of some further terms. -/
def Addends.row {ts : List Token} : Addends ts → List (Joint × Expr)
  | .nil => []
  | .cons _ term rest => term.row ++ rest.row

/-- The joined operands of a sum. -/
def Sum.row {ts : List Token} : Sum ts → List (Joint × Expr)
  | .empty => []
  | .terms first rest => first.row ++ rest.row

/-! ## Assembling the row gives the expressions -/

/-- Joins the operands of a row in front of what comes after them. -/
def joinAll (row : List (Joint × Expr)) (after : Expr.Assembly) : Expr.Assembly :=
  row.foldr (fun part a => Expr.Assembly.join part.1 part.2 a) after

theorem joinAll_append (row others : List (Joint × Expr)) (after : Expr.Assembly) :
    joinAll (row ++ others) after = joinAll row (joinAll others after) := List.foldr_append

theorem joinAll_raises (es : List Expr) (after : Expr.Assembly) :
    joinAll (es.map fun e => (.raises, e)) after =
      { after with exponents := es ++ after.exponents } := by
  induction es with
  | nil => rfl
  | cons e es ih =>
    rw [List.map_cons, joinAll, List.foldr_cons]
    change Expr.Assembly.join .raises e (joinAll _ after) = _
    rw [ih]
    rfl

theorem tower_exprs {ts us : List Token} (base : Operand ts) (exponents : Exponents us) :
    Expr.tower base.expr exponents.exprs = (Power.mk base exponents).expr := by
  cases exponents <;> rfl

theorem term_exprs {ts us vs : List Token} (base : Operand ts) (exponents : Exponents us)
    (factors : Factors vs) :
    Expr.term base.expr exponents.exprs factors.exprs =
      (Term.mk (.mk base exponents) factors).expr := by
  cases factors with
  | nil => cases exponents <;> rfl
  | cons factor rest =>
    rw [Expr.term, tower_exprs]
    cases exponents <;> rfl

theorem Factor.joinAll_row {ts : List Token} (f : Factor ts) (factors terms : List Expr) :
    joinAll f.row ⟨[], factors, terms⟩ = ⟨[], f.expr :: factors, terms⟩ := by
  cases f with
  | times h power | divide h power | next h power =>
    obtain ⟨base, exponents⟩ := power
    rw [Factor.row, Power.row, joinAll, List.foldr_cons]
    change Expr.Assembly.join _ _ (joinAll _ _) = _
    rw [joinAll_raises, List.append_nil]
    simp only [Expr.Assembly.join, tower_exprs]
    rfl

theorem Factors.joinAll_row {ts : List Token} (fs : Factors ts) (terms : List Expr) :
    joinAll fs.row ⟨[], [], terms⟩ = ⟨[], fs.exprs, terms⟩ := by
  match fs with
  | .nil => rfl
  | .cons factor rest =>
    rw [Factors.row, joinAll_append, rest.joinAll_row, factor.joinAll_row, Factors.exprs]
termination_by structural fs

theorem Term.joinAll_row {ts : List Token} (t : Term ts) (terms : List Expr) :
    joinAll t.row ⟨[], [], terms⟩ = ⟨[], [], t.expr :: terms⟩ := by
  obtain ⟨⟨base, exponents⟩, factors⟩ := t
  rw [Term.row, joinAll_append, factors.joinAll_row, Power.row, joinAll, List.foldr_cons]
  change Expr.Assembly.join _ _ (joinAll _ _) = _
  rw [joinAll_raises, List.append_nil]
  simp only [Expr.Assembly.join, term_exprs]

theorem Addends.joinAll_row {ts : List Token} (as : Addends ts) :
    joinAll as.row .empty = ⟨[], [], as.exprs⟩ := by
  match as with
  | .nil => rfl
  | .cons h term rest =>
    rw [Addends.row, joinAll_append, rest.joinAll_row, term.joinAll_row, Addends.exprs]
termination_by structural as

/-- The row of a sum assembles to its terms. -/
theorem Sum.assemble_row {ts : List Token} (s : Sum ts) : Expr.assemble s.row = s.exprs := by
  cases s with
  | empty => rfl
  | terms first rest =>
    change (joinAll (first.row ++ rest.row) .empty).terms = _
    rw [joinAll_append, rest.joinAll_row, first.joinAll_row, Sum.exprs]

/-! ## Reading the trees gives the row -/

open Reckon.Expr (operand row rowAfter)

theorem rowAfter_operator {limits : Limits} {depth : Nat} {t : Token} {joint : Joint} {b : Tree}
    {e : Expr} {items : List Tree}
    (ht : (Tree.leaf t).operator? = some (t, joint)) (hb : operand limits depth b = .ok e) :
    rowAfter limits depth (.leaf t :: b :: items) =
      ((joint, e) :: ·) <$> rowAfter limits depth items := by
  simp only [rowAfter, ht, hb]
  cases rowAfter limits depth items <;> rfl

theorem rowAfter_operand {limits : Limits} {depth : Nat} {b : Tree} {e : Expr}
    {items : List Tree} (hb : b.operator? = none) (he : operand limits depth b = .ok e) :
    rowAfter limits depth (b :: items) = ((b.joint, e) :: ·) <$> rowAfter limits depth items := by
  simp only [rowAfter, hb, he]
  cases rowAfter limits depth items <;> rfl

theorem Operand.operator?_tree {ts : List Token} (a : Operand ts) : a.tree.operator? = none := by
  cases a with
  | number value h => simp [Operand.tree, Tree.operator?, h]
  | var name h => simp [Operand.tree, Tree.operator?, h]
  | bracket ho level hc => rfl
  | call name h argument => rfl

theorem Operand.joint_tree {ts us : List Token} {signed : Bool} (a : Operand ts)
    (h : startsSigned (ts ++ us) = signed) :
    a.tree.joint = if signed then .adds else .multiplies := by
  rw [← h]
  cases a <;> rfl

mutual

/-- The tree of an operand stands for its expression. -/
theorem Operand.operand_tree {ts : List Token} (a : Operand ts) (limits : Limits) (depth : Nat)
    (hdepth : depth + ts.length ≤ limits.treeDepth) : operand limits depth a.tree = .ok a.expr := by
  match a with
  | .number value h => simp [Operand.tree, operand, Operand.expr, h]
  | .var name h => simp [Operand.tree, operand, Operand.expr, h]
  | .bracket (o := o) ho level hc =>
    simp only [List.length_cons, List.length_append, List.length_nil] at hdepth
    have hlevel := level.row_items limits (depth + 1) (by omega)
    rw [Operand.tree, operand, Expr.enter, if_neg (by omega)]
    simp only [hlevel, bind, Except.bind, pure, Except.pure, level.assemble_row]
    rfl
  | .call (f := f) name h argument =>
    simp only [List.length_cons] at hdepth
    have harg := argument.operand_tree limits (depth + 1) (by omega)
    simp only [Operand.tree, operand, h]
    rw [Expr.enter, if_neg (by omega)]
    simp only [harg, bind, Except.bind, pure, Except.pure, Operand.expr]
termination_by structural a

theorem Exponents.rowAfter_items {ts : List Token} (a : Exponents ts) (limits : Limits)
    (depth : Nat) {items : List Tree} (hdepth : depth + ts.length ≤ limits.treeDepth) :
    rowAfter limits depth (a.items ++ items) =
      ((a.exprs.map fun e => (.raises, e)) ++ ·) <$> rowAfter limits depth items := by
  match a with
  | .nil => simp [Exponents.items, Exponents.exprs]
  | .cons (t := t) h exponent rest =>
    simp only [List.length_cons, List.length_append] at hdepth
    have hexponent := exponent.operand_tree limits depth (by omega)
    simp only [Exponents.items, Exponents.exprs, List.cons_append]
    rw [rowAfter_operator (show _ = some (_, .raises) by simp [Tree.operator?, h]) hexponent,
      rest.rowAfter_items limits depth (by omega)]
    simp
termination_by structural a

theorem Factor.rowAfter_items {ts : List Token} (a : Factor ts) (limits : Limits)
    (depth : Nat) {items : List Tree} (hdepth : depth + ts.length ≤ limits.treeDepth) :
    rowAfter limits depth (a.items ++ items) = (a.row ++ ·) <$> rowAfter limits depth items := by
  match a with
  | .times (t := t) h (.mk base exponents) =>
    simp only [List.length_cons, List.length_append] at hdepth
    have hbase := base.operand_tree limits depth (by omega)
    simp only [Factor.items, Power.items, List.cons_append]
    rw [rowAfter_operator (show _ = some (_, .multiplies) by simp [Tree.operator?, h]) hbase,
      exponents.rowAfter_items limits depth (by omega)]
    simp [Factor.row, Power.row]
  | .divide (t := t) h (.mk base exponents) =>
    simp only [List.length_cons, List.length_append] at hdepth
    have hbase := base.operand_tree limits depth (by omega)
    simp only [Factor.items, Power.items, List.cons_append]
    rw [rowAfter_operator (show _ = some (_, .divides) by simp [Tree.operator?, h]) hbase,
      exponents.rowAfter_items limits depth (by omega)]
    simp [Factor.row, Power.row]
  | .next h (.mk base exponents) =>
    simp only [List.length_append] at hdepth
    have hbase := base.operand_tree limits depth (by omega)
    simp only [Factor.items, Power.items, List.cons_append]
    rw [rowAfter_operand base.operator?_tree hbase, base.joint_tree h,
      exponents.rowAfter_items limits depth (by omega)]
    simp [Factor.row, Power.row]
termination_by structural a

theorem Factors.rowAfter_items {ts : List Token} (a : Factors ts) (limits : Limits)
    (depth : Nat) {items : List Tree} (hdepth : depth + ts.length ≤ limits.treeDepth) :
    rowAfter limits depth (a.items ++ items) = (a.row ++ ·) <$> rowAfter limits depth items := by
  match a with
  | .nil => simp [Factors.items, Factors.row]
  | .cons factor rest =>
    rw [List.length_append] at hdepth
    rw [Factors.items, List.append_assoc, factor.rowAfter_items limits depth (by omega),
      rest.rowAfter_items limits depth (by omega)]
    simp [Factors.row]
termination_by structural a

theorem Addends.rowAfter_items {ts : List Token} (a : Addends ts) (limits : Limits) (depth : Nat)
    (hdepth : depth + ts.length ≤ limits.treeDepth) :
    rowAfter limits depth a.items = .ok a.row := by
  match a with
  | .nil => rfl
  | .cons h (.mk (.mk base exponents) factors) rest =>
    simp only [List.length_append] at hdepth
    rw [List.append_assoc] at h
    have hbase := base.operand_tree limits depth (by omega)
    simp only [Addends.items, Term.items, Power.items, List.cons_append, List.append_assoc]
    rw [rowAfter_operand base.operator?_tree hbase, base.joint_tree h,
      exponents.rowAfter_items limits depth (by omega),
      factors.rowAfter_items limits depth (by omega),
      rest.rowAfter_items limits depth (by omega)]
    simp [Addends.row, Term.row, Power.row, Functor.map, Except.map]
termination_by structural a

/-- The trees of a sum are read as its row. -/
theorem Sum.row_items {ts : List Token} (a : Sum ts) (limits : Limits) (depth : Nat)
    (hdepth : depth + ts.length ≤ limits.treeDepth) : row limits depth a.items = .ok a.row := by
  match a with
  | .empty => rfl
  | .terms (.mk (.mk base exponents) factors) rest =>
    simp only [List.length_append] at hdepth
    have hbase := base.operand_tree limits depth (by omega)
    simp only [Sum.items, Term.items, Power.items, List.cons_append, List.append_assoc]
    rw [row, hbase, exponents.rowAfter_items limits depth (by omega),
      factors.rowAfter_items limits depth (by omega),
      rest.rowAfter_items limits depth (by omega)]
    simp [Sum.row, Term.row, Power.row, Functor.map, Except.map, bind, Except.bind, pure,
      Except.pure]
termination_by structural a

end

end Reckon.Grammar
