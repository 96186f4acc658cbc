import Reckon.Proofs.Grammar.Trees

/-!
# Reading trees by positions

A level can also be read with a position that moves over its trees, in one loop for the exponents of
a base, one for the factors of a term and one for the terms. Here a position outside of the level
halts the reading (`Halt.outOfRange`). Read in this way a tree stands for the same expression or
fails for the same cause, and no position is ever outside of its level (`ofTreeByPositions_eq`).
-/

namespace Reckon.Expr

/-- Why reading by positions ends early. -/
inductive Halt where
  /-- A position outside of the level is looked up. -/
  | outOfRange
  | failure (cause : ParseError)

section Loops

variable (items : List Tree) (read : (t : Tree) → t ∈ items → Except Halt Expr)

/-- The operator at a position, and how it joins what stands behind it. -/
def operatorAt? (i : Nat) : Option (Token × Joint) := items[i]?.bind Tree.operator?

/-- The exponents from position `i` on, and the position behind them. -/
def exponentsFrom (i : Nat) (hi : i ≤ items.length) :
    Except Halt (List Expr × { next : Nat // i ≤ next ∧ next ≤ items.length }) :=
  match operatorAt? items i with
  | some (token, .raises) =>
    match hright : items[i + 1]? with
    | none => .error (.failure (.missingOperand token.kind.name token.span))
    | some right => do
      have hstop : i + 2 ≤ items.length := (List.getElem?_eq_some_iff.mp hright).1
      let e ← read right (List.mem_of_getElem? hright)
      let (es, ⟨next, hnext⟩) ← exponentsFrom (i + 2) hstop
      return (e :: es, ⟨next, by omega⟩)
  | _ => .ok ([], ⟨i, by omega⟩)
termination_by items.length - i

/-- The base at position `i` with its exponents, and the position behind them. -/
def powerAt (i : Nat) : Except Halt (Expr × { next : Nat // i < next ∧ next ≤ items.length }) :=
  match hbase : items[i]? with
  | none => .error .outOfRange
  | some item => do
    have hi : i + 1 ≤ items.length := (List.getElem?_eq_some_iff.mp hbase).1
    let base ← read item (List.mem_of_getElem? hbase)
    let (exponents, ⟨next, hnext⟩) ← exponentsFrom items read (i + 1) hi
    return (tower base exponents, ⟨next, by omega⟩)

/-- A term of some factors. A single one is the term itself, unless something was chained to it. -/
def finish (factors : List Expr) (chained : Bool) : Expr :=
  match chained, factors with
  | false, [e] => e
  | _, _ => product factors .positive

/-- The term whose next factor is at position `i`, after `factors`, and the position behind it. The
next factor is divided by if `invert` is set. -/
def termFrom (factors : List Expr) (chained invert : Bool) (i : Nat) :
    Except Halt (Expr × { next : Nat // i < next ∧ next ≤ items.length }) := do
  let (factor, ⟨next, hnext⟩) ← powerAt items read i
  let factors := factors ++ [if invert then inverse factor else factor]
  let chained := chained || i + 1 < next
  match items[next]? with
  | none => return (finish factors chained, ⟨next, hnext⟩)
  | some item =>
    match item.operator? with
    | some (token, joint) =>
      if items.length ≤ next + 1 then
        .error (.failure (.missingOperand token.kind.name token.span))
      else do
        let (e, ⟨stop, hstop⟩) ← termFrom factors true (joint = .divides) (next + 1)
        return (e, ⟨stop, by omega⟩)
    | none =>
      if item.explicitSign then return (finish factors chained, ⟨next, hnext⟩)
      else do
        let (e, ⟨stop, hstop⟩) ← termFrom factors true false next
        return (e, ⟨stop, by omega⟩)
termination_by items.length - i

/-- The terms from position `i` on. -/
def termsFrom (i : Nat) : Except Halt (List Expr) := do
  if i < items.length then
    let (e, ⟨next, _⟩) ← termFrom items read [] false false i
    let es ← termsFrom next
    return e :: es
  else return []
termination_by items.length - i

end Loops

/-- The operand that a tree at level `depth` stands for. -/
def operandByPositions (limits : Limits) (depth : Nat) : Tree → Except Halt Expr
  | .leaf token => (operand limits depth (.leaf token)).mapError .failure
  | .group opener items => do
    let below ← (enter limits depth).mapError .failure
    let terms ← termsFrom items (fun t _ => operandByPositions limits below t) 0
    return sum terms ((opener.map Token.sign).getD .positive)
  | .call token argument =>
    match token.kind with
    | .function name => do
      let below ← (enter limits depth).mapError .failure
      let e ← operandByPositions limits below argument
      return call name e token.sign
    | _ => .error (.failure (Tree.call token argument).unexpected)

/-- The expression of a tree. -/
def ofTreeByPositions (limits : Limits) (root : Tree) : Except Halt Expr :=
  match root with
  | .group _ items => do
    let terms ← termsFrom items (fun t _ => operandByPositions limits 0 t) 0
    return sum terms root.sign
  | _ => do
    let terms ← termsFrom [root] (fun t _ => operandByPositions limits 0 t) 0
    return sum terms .positive

/-! ## The row from a position on -/

section Rows

open Grammar (joinAll joinAll_append joinAll_raises)

variable (limits : Limits) (depth : Nat) (items : List Tree)

/-- The operand of a tree of the level. -/
def readItem (item : Tree) : Except Halt Expr := (operand limits depth item).mapError .failure

/-- The joined operands from position `i` on, behind an operand. -/
def rowFrom (i : Nat) : Except Halt (List (Joint × Expr)) :=
  (rowAfter limits depth (items.drop i)).mapError .failure

/-- The assembled terms from position `i` on. -/
def assembledFrom (i : Nat) : Except Halt (List Expr) :=
  ((row limits depth (items.drop i)).map assemble).mapError .failure

variable {limits depth items} {i : Nat} {item : Tree} {token : Token} {joint : Joint}

theorem ok_bind {ε α β : Type} (a : α) (f : α → Except ε β) : (.ok a >>= f) = f a := rfl

theorem mapError_bind {ε ε' α β : Type} (x : Except ε α) (f : α → Except ε β) (g : ε → ε') :
    (x >>= f).mapError g = x.mapError g >>= fun a => (f a).mapError g := by
  cases x <;> rfl

theorem drop_of_getElem? (h : items[i]? = some item) :
    items.drop i = item :: items.drop (i + 1) := by
  obtain ⟨hi, rfl⟩ := List.getElem?_eq_some_iff.mp h
  exact List.drop_eq_getElem_cons hi

theorem drop_of_getElem?_eq_none (h : items[i]? = none) : items.drop i = [] :=
  List.drop_eq_nil_iff.mpr (List.getElem?_eq_none_iff.mp h)

theorem rowFrom_of_none (h : items[i]? = none) : rowFrom limits depth items i = .ok [] := by
  rw [rowFrom, drop_of_getElem?_eq_none h]
  rfl

theorem rowFrom_of_operand (h : items[i]? = some item) (hoperator : item.operator? = none) :
    rowFrom limits depth items i = (do
      let e ← readItem limits depth item
      let others ← rowFrom limits depth items (i + 1)
      return (item.joint, e) :: others) := by
  rw [rowFrom, drop_of_getElem? h, rowAfter.eq_def]
  simp only [hoperator, mapError_bind]
  rfl

theorem rowFrom_of_last (h : items[i]? = some item)
    (hoperator : item.operator? = some (token, joint)) (hlast : items[i + 1]? = none) :
    rowFrom limits depth items i =
      .error (.failure (.missingOperand token.kind.name token.span)) := by
  rw [rowFrom, drop_of_getElem? h, drop_of_getElem?_eq_none hlast, rowAfter.eq_def]
  simp only [hoperator]
  rfl

theorem rowFrom_of_operator {right : Tree} (h : items[i]? = some item)
    (hoperator : item.operator? = some (token, joint)) (hright : items[i + 1]? = some right) :
    rowFrom limits depth items i = (do
      let e ← readItem limits depth right
      let others ← rowFrom limits depth items (i + 2)
      return (joint, e) :: others) := by
  rw [rowFrom, drop_of_getElem? h, drop_of_getElem? hright, rowAfter.eq_def]
  simp only [hoperator, mapError_bind]
  rfl

theorem assembledFrom_of_none (h : items[i]? = none) :
    assembledFrom limits depth items i = .ok [] := by
  rw [assembledFrom, drop_of_getElem?_eq_none h]
  rfl

theorem assembledFrom_of_some (h : items[i]? = some item) :
    assembledFrom limits depth items i = (do
      let e ← readItem limits depth item
      let others ← rowFrom limits depth items (i + 1)
      return assemble ((.adds, e) :: others)) := by
  rw [assembledFrom, drop_of_getElem? h, row, readItem, rowFrom]
  cases operand limits depth item with
  | error cause => rfl
  | ok e => cases rowAfter limits depth (items.drop (i + 1)) <;> rfl

/-! ## The loop over exponents -/

/-- The loop takes two positions for each exponent, and no further one stands where it stops. -/
theorem next_of_exponentsFrom {read : (t : Tree) → t ∈ items → Except Halt Expr}
    {hi : i ≤ items.length} {es : List Expr}
    {next : { next : Nat // i ≤ next ∧ next ≤ items.length }}
    (h : exponentsFrom items read i hi = .ok (es, next)) :
    next.val = i + 2 * es.length ∧ ∀ token, operatorAt? items next.val ≠ some (token, .raises) := by
  fun_induction exponentsFrom items read i hi generalizing es with
  | case1 => contradiction
  | case2 i hi token htoken right hright hstop ih =>
    obtain ⟨e, -, h⟩ := bind_eq_ok.mp h
    obtain ⟨⟨es', next'⟩, hnext', h⟩ := bind_eq_ok.mp h
    obtain ⟨rfl, rfl⟩ := Prod.mk.inj (Except.ok.inj h)
    obtain ⟨hlength, hother⟩ := ih hnext'
    refine ⟨?_, hother⟩
    rw [List.length_cons, hlength]
    omega
  | case3 i hi hother =>
    obtain ⟨rfl, rfl⟩ := Prod.mk.inj (Except.ok.inj h)
    exact ⟨rfl, fun token htoken => hother token htoken⟩

/-- The row from a position on starts with the exponents of the loop. -/
theorem rowFrom_eq_exponentsFrom (hi : i ≤ items.length) :
    rowFrom limits depth items i = (do
      let (es, next) ← exponentsFrom items (fun t _ => readItem limits depth t) i hi
      let others ← rowFrom limits depth items next.val
      return es.map (.raises, ·) ++ others) := by
  fun_induction exponentsFrom items (fun t _ => readItem limits depth t) i hi with
  | case1 i hi token htoken hright =>
    obtain ⟨item, hitem, hoperator⟩ := Option.bind_eq_some_iff.mp htoken
    rw [rowFrom_of_last hitem hoperator hright]
    rfl
  | case2 i hi token htoken right hright hstop ih =>
    obtain ⟨item, hitem, hoperator⟩ := Option.bind_eq_some_iff.mp htoken
    rw [rowFrom_of_operator hitem hoperator hright, ih]
    simp only [bind_assoc, pure_bind, List.map_cons, List.cons_append]
  | case3 i hi hother => exact (bind_pure (rowFrom limits depth items i)).symm

theorem powerAt_of_some (read : (t : Tree) → t ∈ items → Except Halt Expr)
    (h : items[i]? = some item) :
    ∃ hi : i + 1 ≤ items.length, powerAt items read i = (do
      let base ← read item (List.mem_of_getElem? h)
      let (exponents, ⟨next, hnext⟩) ← exponentsFrom items read (i + 1) hi
      return (tower base exponents, ⟨next, by omega⟩)) := by
  refine ⟨(List.getElem?_eq_some_iff.mp h).1, ?_⟩
  rw [powerAt]
  split
  · rename_i hnone
    rw [h] at hnone
    contradiction
  · rename_i item' hitem
    obtain rfl := Option.some.inj (h.symm.trans hitem)
    rfl

/-- An operator behind the exponents of a base is no further `^`. -/
theorem joint_of_not_raises (hitem : items[i]? = some item)
    (hoperator : item.operator? = some (token, joint))
    (hraises : operatorAt? items i ≠ some (token, .raises)) :
    joint = .multiplies ∨ joint = .divides := by
  rw [operatorAt?, hitem, Option.bind_some, hoperator] at hraises
  unfold Tree.operator? at hoperator
  split at hoperator
  · split at hoperator
    · exact .inl (Prod.mk.inj (Option.some.inj hoperator)).2.symm
    · exact .inr (Prod.mk.inj (Option.some.inj hoperator)).2.symm
    · obtain ⟨-, rfl⟩ := Prod.mk.inj (Option.some.inj hoperator)
      contradiction
    · contradiction
  · contradiction

/-! ## The loops over factors and terms -/

theorem joinAll_cons (joint : Joint) (e : Expr) (parts : List (Joint × Expr)) (after : Assembly) :
    joinAll ((joint, e) :: parts) after = (joinAll parts after).join joint e := rfl

/-- A base with its exponents as a factor. -/
def factorOf (invert : Bool) (base : Expr) (exponents : List Expr) : Expr :=
  if invert then inverse (tower base exponents) else tower base exponents

/-- What the loop over factors makes of a base and of what is joined behind it: its own term and the
terms after it. -/
def closing (factors : List Expr) (chained invert : Bool) (base : Expr) (a : Assembly) :
    List Expr :=
  finish (factors ++ factorOf invert base a.exponents :: a.factors)
    (chained || !a.exponents.isEmpty || !a.factors.isEmpty) :: a.terms

/-- A term that nothing has been read of yet. -/
theorem closing_nil (base : Expr) (a : Assembly) :
    closing [] false false base a = (a.join .adds base).terms := by
  obtain ⟨exponents, factors, terms⟩ := a
  cases exponents <;> cases factors <;> rfl

/-- A further factor is read after the first one. -/
theorem closing_join {factors : List Expr} {chained invert : Bool} {base e : Expr}
    {exponents : List Expr} (hjoint : joint = .multiplies ∨ joint = .divides) (a : Assembly) :
    closing factors chained invert base
        { a.join joint e with exponents := exponents ++ (a.join joint e).exponents } =
      closing (factors ++ [factorOf invert base exponents]) true (joint = .divides) e a := by
  obtain rfl | rfl := hjoint <;> simp [closing, Assembly.join, factorOf]

variable (limits depth) in
/-- The loop over factors reads one term, and the other terms are still to be read. -/
theorem termFrom_eq (factors : List Expr) (chained invert : Bool) (h : items[i]? = some item) :
    (do
      let (e, next) ←
        termFrom items (fun t _ => readItem limits depth t) factors chained invert i
      let es ← assembledFrom limits depth items next.val
      return e :: es) =
    (do
      let base ← readItem limits depth item
      let others ← rowFrom limits depth items (i + 1)
      return closing factors chained invert base (joinAll others .empty)) := by
  induction hsteps : items.length - i using Nat.strongRecOn
    generalizing factors chained invert i item with
  | ind n ih =>
    obtain ⟨hi, hpower⟩ := powerAt_of_some (fun t _ => readItem limits depth t) h
    rw [termFrom, hpower, rowFrom_eq_exponentsFrom hi]
    simp only [bind_assoc, pure_bind]
    refine bind_congr fun base => ?_
    cases hexponents :
        exponentsFrom items (fun t _ => readItem limits depth t) (i + 1) hi with
    | error halt => rfl
    | ok read =>
      obtain ⟨exponents, next, hnext⟩ := read
      obtain ⟨hlength, hraises⟩ := next_of_exponentsFrom hexponents
      dsimp only at hlength hraises
      have hchained : decide (i + 1 < next) = !exponents.isEmpty := by
        cases exponents <;> simp [hlength]
      simp only [ok_bind, joinAll_append, joinAll_raises, hchained]
      cases hitem : items[next]? with
      | none =>
        rw [rowFrom_of_none hitem]
        simp only [ok_bind, pure_bind, assembledFrom_of_none hitem]
        simp [closing, factorOf, joinAll, Assembly.empty]
      | some item' =>
        dsimp only
        cases hoperator : item'.operator? with
        | none =>
          rw [rowFrom_of_operand hitem hoperator]
          simp only [bind_assoc, pure_bind]
          cases hsign : item'.explicitSign with
          | true =>
            -- the item opens the next term
            rw [if_pos rfl, pure_bind, assembledFrom_of_some hitem]
            simp only [bind_assoc, pure_bind, Tree.joint, hsign, if_true]
            simp [closing, factorOf, joinAll, Assembly.join, assemble]
          | false =>
            have hfactors := ih _ (by omega) (factors ++ [factorOf invert base exponents]) true
              false hitem rfl
            have hjoint : item'.joint = .multiplies := by simp [Tree.joint, hsign]
            simp only [Bool.false_eq_true, if_false, bind_assoc, pure_bind, hjoint, joinAll_cons,
              closing_join (.inl rfl)]
            exact hfactors
        | some operator =>
          obtain ⟨token, joint⟩ := operator
          have hjoint := joint_of_not_raises hitem hoperator (hraises token)
          dsimp only
          cases hright : items[next + 1]? with
          | none =>
            have hlast := List.getElem?_eq_none_iff.mp hright
            rw [rowFrom_of_last hitem hoperator hright, if_pos hlast]
            rfl
          | some right =>
            have hmore : ¬items.length ≤ next + 1 :=
              Nat.not_le.mpr (List.getElem?_eq_some_iff.mp hright).1
            have hfactors := ih _ (by omega) (factors ++ [factorOf invert base exponents]) true
              (joint = .divides) hright rfl
            rw [rowFrom_of_operator hitem hoperator hright, if_neg hmore]
            simp only [bind_assoc, pure_bind, joinAll_cons, closing_join hjoint]
            exact hfactors

/-- The terms from a position on are those of the row. -/
theorem termsFrom_eq (i : Nat) :
    termsFrom items (fun t _ => readItem limits depth t) i =
      assembledFrom limits depth items i := by
  induction hsteps : items.length - i using Nat.strongRecOn generalizing i with
  | ind n ih =>
    rw [termsFrom]
    cases hitem : items[i]? with
    | none =>
      rw [assembledFrom_of_none hitem, if_neg (by simpa using List.getElem?_eq_none_iff.mp hitem)]
      rfl
    | some item =>
      have hi := (List.getElem?_eq_some_iff.mp hitem).1
      have hterm := termFrom_eq limits depth [] false false hitem
      simp only [closing_nil] at hterm
      rw [if_pos hi, assembledFrom_of_some hitem]
      refine (bind_congr fun read => ?_).trans hterm
      obtain ⟨e, next, hnext⟩ := read
      dsimp only
      rw [ih _ (by omega) next rfl]

end Rows

/-! ## Whole trees -/

variable {limits : Limits}

/-- The terms of a level, if its trees are read as the operands that they stand for. -/
theorem termsFrom_of_operands {depth : Nat} {items : List Tree}
    (h : ∀ t ∈ items, operandByPositions limits depth t = readItem limits depth t) :
    termsFrom items (fun t _ => operandByPositions limits depth t) 0 =
      ((row limits depth items).map assemble).mapError .failure := by
  have hread : (fun (t : Tree) (_ : t ∈ items) => operandByPositions limits depth t) =
      fun t _ => readItem limits depth t := by
    funext t ht
    exact h t ht
  rw [hread]
  exact termsFrom_eq 0

theorem operandByPositions_eq (depth : Nat) (t : Tree) :
    operandByPositions limits depth t = readItem limits depth t := by
  fun_induction operandByPositions limits depth t with
  | case1 => rfl
  | case2 depth opener items ih =>
    rw [readItem, operand, mapError_bind]
    refine bind_congr fun below => ?_
    rw [termsFrom_of_operands (ih below)]
    cases row limits below items <;> rfl
  | case3 depth token argument name hname ih =>
    rw [readItem, operand]
    simp only [hname, mapError_bind, ih]
    rfl
  | case4 depth token argument hfunction =>
    rw [readItem, operand]
    split
    · rename_i name hname
      exact absurd hname (hfunction name)
    · rfl

/-- Read by positions a tree stands for the same expression or fails for the same cause, and no
position outside of a level is looked up. -/
theorem ofTreeByPositions_eq (root : Tree) :
    ofTreeByPositions limits root = (ofTree limits root).mapError .failure := by
  have hlevel (items : List Tree) :
      termsFrom items (fun t _ => operandByPositions limits 0 t) 0 =
        ((row limits 0 items).map assemble).mapError .failure :=
    termsFrom_of_operands fun t _ => operandByPositions_eq 0 t
  cases root with
  | group opener items =>
    rw [ofTreeByPositions, ofTree, hlevel]
    cases row limits 0 items <;> rfl
  | leaf token =>
    rw [ofTreeByPositions, ofTree, hlevel]
    · cases row limits 0 [.leaf token] <;> rfl
    · simp
    · simp
  | call token argument =>
    rw [ofTreeByPositions, ofTree, hlevel]
    · cases row limits 0 [.call token argument] <;> rfl
    · simp
    · simp

end Reckon.Expr
