import Reckon.Proofs.Line.Bare

/-!
# Operands behind a sign

Where tokens that compile to a sum come behind others, with a sign between them, their first operand
opens a new term. All that the sign can change in an expression is the sign of the leftmost operand
of that term (`Expr.ofTokens?_join`).
-/

namespace Reckon

namespace Expr

/-! ## The leftmost operand of a term -/

/-- An expression with the sign of its outermost node changed. -/
def mapSign (g : Sign → Sign) : Expr → Expr
  | literal x sign => literal x (g sign)
  | var name sign => var name (g sign)
  | call function argument sign => call function argument (g sign)
  | sum terms sign => sum terms (g sign)
  | product factors sign => product factors (g sign)
  | power operands sign => power operands (g sign)

/-- A factor with its base changed, which is the factor itself unless that is a tower. -/
def mapBase (f : Expr → Expr) : Expr → Expr
  | power (base :: exponents) sign => power (f base :: exponents) sign
  | e => f e

/-- A term with its leftmost operand changed: the base of the first factor of a product, and any
other term itself. -/
def mapLead (f : Expr → Expr) : Expr → Expr
  | product (first :: factors) sign => product (first.mapBase f :: factors) sign
  | e => f e

theorem mapSign_id (e : Expr) : e.mapSign id = e := by
  cases e <;> rfl

theorem mapBase_id (e : Expr) : e.mapBase id = e := by
  unfold mapBase
  split <;> rfl

theorem mapLead_id (e : Expr) : e.mapLead id = e := by
  unfold mapLead
  split
  · rw [mapBase_id]
  · rfl

/-- Whether an expression is an operand by its form: neither a product nor a tower. -/
def IsSimple : Expr → Prop
  | product _ _ | power _ _ => False
  | _ => True

theorem mapBase_of_isSimple {e : Expr} (h : e.IsSimple) (f : Expr → Expr) : e.mapBase f = f e := by
  unfold mapBase
  split
  · exact h.elim
  · rfl

theorem mapLead_of_isSimple {e : Expr} (h : e.IsSimple) (f : Expr → Expr) : e.mapLead f = f e := by
  unfold mapLead
  split
  · exact h.elim
  · rfl

theorem isSimple_of_operand {limits : Limits} {depth : Nat} {t : Tree} {e : Expr}
    (h : operand limits depth t = .ok e) : e.IsSimple := by
  cases t with
  | leaf token =>
    rw [operand] at h
    split at h
    · obtain rfl := Except.ok.inj h
      trivial
    · obtain rfl := Except.ok.inj h
      trivial
    · contradiction
  | group opener items =>
    obtain ⟨below, -, h⟩ := bind_eq_ok.mp h
    obtain ⟨parts, -, h⟩ := bind_eq_ok.mp h
    obtain rfl := Except.ok.inj h
    trivial
  | call function argument =>
    rw [operand] at h
    split at h
    · obtain ⟨below, -, h⟩ := bind_eq_ok.mp h
      obtain ⟨e', -, h⟩ := bind_eq_ok.mp h
      obtain rfl := Except.ok.inj h
      trivial
    · contradiction

/-- The operand that opens a term is its leftmost one. -/
theorem mapLead_term {base : Expr} (h : base.IsSimple) (f : Expr → Expr)
    (exponents factors : List Expr) :
    (term base exponents factors).mapLead f = term (f base) exponents factors := by
  cases exponents with
  | cons e exponents => rfl
  | nil =>
    cases factors with
    | nil => exact mapLead_of_isSimple h f
    | cons e factors =>
      change product (base.mapBase f :: e :: factors) _ = _
      rw [mapBase_of_isSimple h]
      rfl

/-! ## Assembling two rows -/

open Grammar (joinAll joinAll_append)

theorem joinAll_terms (parts : List (Joint × Expr)) (terms : List Expr) :
    joinAll parts ⟨[], [], terms⟩ =
      { joinAll parts .empty with terms := (joinAll parts .empty).terms ++ terms } := by
  induction parts with
  | nil => rfl
  | cons part parts ih =>
    obtain ⟨joint, e⟩ := part
    change Assembly.join joint e (joinAll parts _) = _
    rw [ih]
    cases joint <;> rfl

/-- A row that opens a term leaves alone what comes before it. -/
theorem assemble_append (parts : List (Joint × Expr)) (e : Expr) (others : List (Joint × Expr)) :
    assemble (parts ++ (.adds, e) :: others) =
      assemble parts ++ assemble ((.adds, e) :: others) := by
  change (joinAll (parts ++ (.adds, e) :: others) .empty).terms = _
  rw [joinAll_append]
  change (joinAll parts ⟨[], [], assemble ((.adds, e) :: others)⟩).terms = _
  rw [joinAll_terms]
  rfl

theorem assemble_mapLead {e : Expr} (h : e.IsSimple) (f : Expr → Expr)
    (others : List (Joint × Expr)) :
    assemble ((.adds, f e) :: others) = (assemble ((.adds, e) :: others)).modifyHead (mapLead f) := by
  change term (f e) _ _ :: _ = (term e _ _).mapLead f :: _
  rw [mapLead_term h]

end Expr

/-! ## Trees behind a sign -/

/-- A token behind a sign, which changes its sign by `g`. -/
def Token.marked (g : Sign → Sign) (t : Token) : Token :=
  { t with explicitSign := true, sign := g t.sign }

namespace Tree

/-- A tree whose first token is behind a sign. -/
def marked (g : Sign → Sign) : Tree → Tree
  | leaf token => leaf (token.marked g)
  | group opener items => group (opener.map (Token.marked g)) items
  | call function argument => call (function.marked g) argument

variable {g : Sign → Sign} {t : Tree}

theorem wellFormed_marked (h : t.WellFormed) : (t.marked g).WellFormed := by
  cases t with
  | leaf token => exact h
  | group opener items =>
    obtain ⟨⟨o, rfl, ho⟩, hitems⟩ := h
    exact ⟨⟨_, rfl, ho⟩, hitems⟩
  | call function argument => exact h

theorem fits_marked {maxDepth depth calls : Nat} (h : t.Fits maxDepth depth calls) :
    (t.marked g).Fits maxDepth depth calls := by
  cases t <;> exact h

theorem flatten_marked (h : t.WellFormed) (marks : List (Option Token)) :
    (t.marked g).flatten ++ marks =
      (t.flatten ++ marks).modifyHead (Option.map (Token.marked g)) := by
  cases t with
  | leaf token => rfl
  | group opener items =>
    obtain ⟨⟨o, rfl, -⟩, -⟩ := h
    rfl
  | call function argument => rfl

theorem joint_marked (h : t.WellFormed) : (t.marked g).joint = .adds := by
  cases t with
  | leaf token => rfl
  | group opener items =>
    obtain ⟨⟨o, rfl, -⟩, -⟩ := h
    rfl
  | call function argument => rfl

end Tree

namespace Expr

variable {limits : Limits} {depth : Nat} {g : Sign → Sign}

theorem operand_marked {t : Tree} {e : Expr} (hwf : t.WellFormed)
    (h : operand limits depth t = .ok e) :
    operand limits depth (t.marked g) = .ok (e.mapSign g) := by
  cases t with
  | leaf token =>
    have hmarked : (token.marked g).kind = token.kind := rfl
    cases hkind : token.kind with
    | number x =>
      simp only [operand, hkind] at h
      obtain rfl := Except.ok.inj h
      simp only [Tree.marked, operand, hmarked, hkind]
      rfl
    | var name =>
      simp only [operand, hkind] at h
      obtain rfl := Except.ok.inj h
      simp only [Tree.marked, operand, hmarked, hkind]
      rfl
    | _ => simp only [operand, hkind, reduceCtorEq] at h
  | group opener items =>
    obtain ⟨⟨o, rfl, -⟩, -⟩ := hwf
    obtain ⟨below, hbelow, h⟩ := bind_eq_ok.mp h
    obtain ⟨parts, hparts, h⟩ := bind_eq_ok.mp h
    obtain rfl := Except.ok.inj h
    exact bind_eq_ok.mpr ⟨below, hbelow, bind_eq_ok.mpr ⟨parts, hparts, rfl⟩⟩
  | call function argument =>
    obtain ⟨⟨name, hname⟩, -⟩ := hwf
    have hname' : (function.marked g).kind = .function name := hname
    simp only [operand, hname] at h
    simp only [Tree.marked, operand, hname']
    obtain ⟨below, hbelow, h⟩ := bind_eq_ok.mp h
    obtain ⟨e', he', h⟩ := bind_eq_ok.mp h
    obtain rfl := Except.ok.inj h
    exact bind_eq_ok.mpr ⟨below, hbelow, bind_eq_ok.mpr ⟨e', he', rfl⟩⟩

theorem operator?_of_operand {t : Tree} {e : Expr} (h : operand limits depth t = .ok e) :
    t.operator? = none := by
  cases hop : t.operator? with
  | none => rfl
  | some found =>
    obtain ⟨rfl, hkind⟩ := Grammar.operator?_eq_some hop
    rw [operand] at h
    rcases hkind with ⟨hkind, -⟩ | ⟨hkind, -⟩ | ⟨hkind, -⟩ <;> simp [hkind] at h

/-! ## Reading two levels as one -/

/-- A level that has been read is complete: what comes after it is read as if it stood alone. -/
theorem rowAfter_append {parts others : List (Joint × Expr)} (items : List Tree) {after : List Tree}
    (h : rowAfter limits depth items = .ok parts) (hafter : rowAfter limits depth after = .ok others) :
    rowAfter limits depth (items ++ after) = .ok (parts ++ others) := by
  match items with
  | [] =>
    obtain rfl := Except.ok.inj h
    exact hafter
  | item :: items =>
    rw [rowAfter] at h
    rw [List.cons_append, rowAfter]
    split at h
    · cases items with
      | nil => contradiction
      | cons right items =>
        obtain ⟨e, he, h⟩ := bind_eq_ok.mp h
        obtain ⟨rest, hrest, h⟩ := bind_eq_ok.mp h
        obtain rfl := Except.ok.inj h
        exact bind_eq_ok.mpr ⟨e, he, bind_eq_ok.mpr ⟨_, rowAfter_append items hrest hafter, rfl⟩⟩
    · obtain ⟨e, he, h⟩ := bind_eq_ok.mp h
      obtain ⟨rest, hrest, h⟩ := bind_eq_ok.mp h
      obtain rfl := Except.ok.inj h
      exact bind_eq_ok.mpr ⟨e, he, bind_eq_ok.mpr ⟨_, rowAfter_append items hrest hafter, rfl⟩⟩
termination_by structural items

theorem row_append {parts others : List (Joint × Expr)} {items rest : List Tree} {t : Tree}
    {e : Expr} (h : row limits depth items = .ok parts) (ht : operand limits depth t = .ok e)
    (hjoint : t.joint = .adds) (hrest : rowAfter limits depth rest = .ok others) :
    row limits depth (items ++ t :: rest) = .ok (parts ++ (.adds, e) :: others) := by
  have hafter : rowAfter limits depth (t :: rest) = .ok ((.adds, e) :: others) := by
    rw [Grammar.rowAfter_operand (operator?_of_operand ht) ht, hrest, hjoint]
    rfl
  cases items with
  | nil =>
    obtain rfl := Except.ok.inj h
    exact bind_eq_ok.mpr ⟨e, ht, bind_eq_ok.mpr ⟨others, hrest, rfl⟩⟩
  | cons item items =>
    obtain ⟨first, hfirst, h⟩ := bind_eq_ok.mp h
    obtain ⟨more, hmore, h⟩ := bind_eq_ok.mp h
    obtain rfl := Except.ok.inj h
    exact bind_eq_ok.mpr ⟨first, hfirst, bind_eq_ok.mpr ⟨_, rowAfter_append items hmore hafter, rfl⟩⟩

end Expr

/-! ## Tokens behind a sign -/

namespace Tree

theorem allWellFormed_append {items others : List Tree} (h : AllWellFormed items)
    (hothers : AllWellFormed others) : AllWellFormed (items ++ others) := by
  rw [allWellFormed_iff] at *
  exact List.forall_mem_append.mpr ⟨h, hothers⟩

theorem allFit_append {maxDepth depth : Nat} {items others : List Tree}
    (h : AllFit maxDepth depth items) (hothers : AllFit maxDepth depth others) :
    AllFit maxDepth depth (items ++ others) := by
  induction items with
  | nil => exact hothers
  | cons t items ih => exact ⟨h.1, ih h.2⟩

end Tree

namespace Token

variable {g : Sign → Sign}

theorem mark_marked (t : Token) : (t.marked g).mark = t.mark.map (marked g) := by
  change (if t.kind = .closeBracket then none else some (t.marked g)) = _
  rw [mark]
  split <;> rfl

theorem map_mark_modifyHead (tokens : List Token) :
    (tokens.modifyHead (marked g)).map mark =
      (tokens.map mark).modifyHead (Option.map (marked g)) := by
  cases tokens with
  | nil => rfl
  | cons t rest => exact congrArg (· :: rest.map mark) (mark_marked t)

end Token

/-- Where tokens stand behind others and a sign, their terms come after those of the others. -/
theorem Expr.ofTokens?_join {limits : Limits} {ts us : List Token} {terms others : List Expr}
    (hts : ofTokens? limits ts = some (sum terms .positive))
    (hus : ofTokens? limits us = some (sum others .positive)) (g : Sign → Sign) :
    ofTokens? limits (ts ++ us.modifyHead (Token.marked g)) =
      some (sum (terms ++ others.modifyHead (mapLead (mapSign g))) .positive) := by
  obtain ⟨items, parts, hwf, hfits, hflat, hrow, heq⟩ := ofTokens?_eq_some_iff.mp hts
  obtain ⟨items', parts', hwf', hfits', hflat', hrow', heq'⟩ := ofTokens?_eq_some_iff.mp hus
  obtain ⟨rfl, -⟩ := sum.inj heq
  obtain ⟨rfl, -⟩ := sum.inj heq'
  cases items' with
  | nil =>
    obtain rfl := List.map_eq_nil_iff.mp hflat'.symm
    obtain rfl := Except.ok.inj hrow'
    rw [List.modifyHead_nil, List.append_nil, hts]
    exact congrArg (fun terms => some (sum terms .positive)) (List.append_nil _).symm
  | cons t rest =>
    obtain ⟨e, he, hrow'⟩ := bind_eq_ok.mp hrow'
    obtain ⟨more, hmore, hrow'⟩ := bind_eq_ok.mp hrow'
    obtain rfl := Except.ok.inj hrow'
    refine ofTokens?_eq_some_iff.mpr ⟨items ++ t.marked g :: rest,
      parts ++ (.adds, e.mapSign g) :: more,
      Tree.allWellFormed_append hwf ⟨Tree.wellFormed_marked hwf'.1, hwf'.2⟩,
      Tree.allFit_append hfits ⟨Tree.fits_marked hfits'.1, hfits'.2⟩, ?_,
      row_append hrow (operand_marked hwf'.1 he) (Tree.joint_marked hwf'.1) hmore, ?_⟩
    · rw [Tree.flattenAll_append, hflat, Tree.flattenAll, Tree.flatten_marked hwf'.1,
        ← Tree.flattenAll, hflat', ← Token.map_mark_modifyHead, ← List.map_append]
    · rw [assemble_append, assemble_mapLead (isSimple_of_operand he)]

end Reckon
