import Mathlib.Data.List.Forall2
import Reckon.Proofs.Eval.Faults

/-!
# Unfolding variables

Put what a variable is bound to in the place of the variable, again and again: if that comes to an
end and nothing is missing, the result is an `Unfolding`, a finite tree with a height and a value.
An evaluation succeeds exactly if there is one that is not too high
(`evaluate_eq_ok_iff_unfolding`), so it never succeeds if it comes to a variable that depends on
itself.
-/

namespace Reckon

mutual

/-- An expression with all its variables unfolded: all of them are bound, all functions that are
called are there, and all powers have two operands at least. -/
inductive Unfolding (env : Env) (function? : String → Option (Float → Float)) : Expr → Type where
  | literal (x : Float) (sign : Sign) : Unfolding env function? (.literal x sign)
  | var {name : String} {e : Expr} (h : env.lookup? name = some e)
      (bound : Unfolding env function? e) (sign : Sign) : Unfolding env function? (.var name sign)
  | call {name : String} {f : Float → Float} {argument : Expr} (h : function? name = some f)
      (below : Unfolding env function? argument) (sign : Sign) :
      Unfolding env function? (.call name argument sign)
  | sum {terms : List Expr} (below : Unfoldings env function? terms) (sign : Sign) :
      Unfolding env function? (.sum terms sign)
  | product {factors : List Expr} (below : Unfoldings env function? factors) (sign : Sign) :
      Unfolding env function? (.product factors sign)
  | power {operands : List Expr} (h : 2 ≤ operands.length)
      (below : Unfoldings env function? operands) (sign : Sign) :
      Unfolding env function? (.power operands sign)

/-- Some expressions with all their variables unfolded. -/
inductive Unfoldings (env : Env) (function? : String → Option (Float → Float)) :
    List Expr → Type where
  | nil : Unfoldings env function? []
  | cons {e : Expr} {es : List Expr} (first : Unfolding env function? e)
      (rest : Unfoldings env function? es) : Unfoldings env function? (e :: es)

end

/-- The value of a tower of numbers, worked off from its top. -/
def towerValue : List Float → Float
  | [] => 1
  | [x] => x
  | x :: y :: rest => x.pow (towerValue (y :: rest))

variable {env : Env} {function? : String → Option (Float → Float)}

mutual

/-- The number of nodes on the longest branch. -/
def Unfolding.height {e : Expr} : Unfolding env function? e → Nat
  | .literal _ _ => 1
  | .var _ bound _ => bound.height + 1
  | .call _ below _ => below.height + 1
  | .sum below _ | .product below _ | .power _ below _ => below.height + 1
termination_by structural u => u

/-- The number of nodes on the longest branch of all, zero if there is none. -/
def Unfoldings.height {es : List Expr} : Unfoldings env function? es → Nat
  | .nil => 0
  | .cons first rest => max first.height rest.height
termination_by structural us => us

end

mutual

/-- The value of the tree, from its leaves upwards. -/
def Unfolding.value {e : Expr} : Unfolding env function? e → Float
  | .literal x sign => sign.apply x
  | .var _ bound sign => sign.apply bound.value
  | .call (f := f) _ below sign => sign.apply (f below.value)
  | .sum below sign => sign.apply (below.values.foldl (· + ·) 0)
  | .product below sign => sign.apply (below.values.foldl (· * ·) 1)
  | .power _ below sign => sign.apply (towerValue below.values)
termination_by structural u => u

/-- The values of the trees in their order. -/
def Unfoldings.values {es : List Expr} : Unfoldings env function? es → List Float
  | .nil => []
  | .cons first rest => first.value :: rest.values
termination_by structural us => us

end

/-! ## Folding values -/

theorem foldValues_eq_ok {below : Expr → Except EvalError Float} {es : List Expr}
    {op : Float → Float → Float} {start v : Float} :
    foldValues op start below es = .ok v ↔
      ∃ xs, List.Forall₂ (fun e x => below e = .ok x) es xs ∧ xs.foldl op start = v := by
  induction es generalizing start with
  | nil =>
    refine ⟨fun h => ⟨[], .nil, Except.ok.inj h⟩, ?_⟩
    rintro ⟨xs, hxs, rfl⟩
    obtain rfl := List.forall₂_nil_left_iff.mp hxs
    rfl
  | cons e es ih =>
    rw [foldValues, List.foldlM_cons]
    refine ⟨fun h => ?_, ?_⟩
    · obtain ⟨total, htotal, h⟩ := bind_eq_ok.mp h
      obtain ⟨x, hx, htotal⟩ := bind_eq_ok.mp htotal
      obtain rfl := Except.ok.inj htotal
      obtain ⟨xs, hxs, rfl⟩ := ih.mp h
      exact ⟨x :: xs, .cons hx hxs, rfl⟩
    · rintro ⟨xs, hxs, rfl⟩
      obtain ⟨x, rest, hx, hrest, rfl⟩ := List.forall₂_cons_left_iff.mp hxs
      rw [hx]
      exact ih.mpr ⟨rest, hrest, rfl⟩

theorem stacked_eq_ok {operands bases : List Expr} {top : Expr} :
    stacked operands = .ok (top, bases) ↔ operands.reverse = top :: bases ∧ bases ≠ [] := by
  rw [stacked]
  rcases operands.reverse with _ | ⟨top', _ | ⟨base, bases'⟩⟩
  · simp only [reduceCtorEq, false_and]
  · simp only [reduceCtorEq, List.cons.injEq, false_iff]
    rintro ⟨⟨-, hnil⟩, hbases⟩
    exact hbases hnil.symm
  · simp only [Except.ok.injEq, Prod.mk.injEq, List.cons.injEq]
    refine ⟨?_, fun h => h.1⟩
    rintro ⟨rfl, rfl⟩
    exact ⟨⟨rfl, rfl⟩, List.cons_ne_nil _ _⟩

theorem towerValue_append (xs : List Float) (x y : Float) :
    towerValue (xs ++ [x, y]) = towerValue (xs ++ [x.pow y]) := by
  induction xs with
  | nil => rfl
  | cons z xs ih =>
    cases xs with
    | nil => rfl
    | cons z' xs => exact congrArg z.pow ih

/-- Working a tower off from its top gives its value. -/
theorem foldl_pow (top : Float) (bases : List Float) :
    bases.foldl (fun exponent x => x.pow exponent) top = towerValue (top :: bases).reverse := by
  induction bases generalizing top with
  | nil => rfl
  | cons base bases ih =>
    rw [List.foldl_cons, ih, List.reverse_cons, List.reverse_cons, List.reverse_cons,
      List.append_assoc]
    exact (towerValue_append _ _ _).symm

/-! ## When a node has a value -/

section Nodes

variable {fuel : Nat} {sign : Sign} {v : Float}

theorem value_var_eq_ok {name : String} :
    (env.rules function?).value (fuel + 1) (.var name sign) = .ok v ↔
      ∃ e, env.lookup? name = some e ∧
        ∃ x, (env.rules function?).value fuel e = .ok x ∧ sign.apply x = v := by
  change (boundTo (some env) name >>= fun e =>
    (env.rules function?).value fuel e >>= fun x => .ok (sign.apply x)) = .ok v ↔ _
  simp only [bind_eq_ok, boundTo_eq_ok, Except.ok.injEq]

theorem value_call_eq_ok {name : String} {argument : Expr} :
    (env.rules function?).value (fuel + 1) (.call name argument sign) = .ok v ↔
      ∃ f, function? name = some f ∧
        ∃ x, (env.rules function?).value fuel argument = .ok x ∧ sign.apply (f x) = v := by
  have hcalled : ∀ f, (env.rules function?).called name = .ok f ↔ function? name = some f := by
    intro f
    simp only [EnvOf.rules]
    cases function? name <;> simp
  change ((env.rules function?).called name >>= fun f =>
    (env.rules function?).value fuel argument >>= fun x => .ok (sign.apply (f x))) = .ok v ↔ _
  simp only [bind_eq_ok, hcalled, Except.ok.injEq]

theorem value_sum_eq_ok {terms : List Expr} :
    (env.rules function?).value (fuel + 1) (.sum terms sign) = .ok v ↔
      ∃ xs, List.Forall₂ (fun e x => (env.rules function?).value fuel e = .ok x) terms xs ∧
        sign.apply (xs.foldl (· + ·) 0) = v := by
  change (foldValues (· + ·) 0 ((env.rules function?).value fuel) terms >>= fun x =>
    .ok (sign.apply x)) = .ok v ↔ _
  simp only [bind_eq_ok, foldValues_eq_ok, Except.ok.injEq]
  grind

theorem value_product_eq_ok {factors : List Expr} :
    (env.rules function?).value (fuel + 1) (.product factors sign) = .ok v ↔
      ∃ xs, List.Forall₂ (fun e x => (env.rules function?).value fuel e = .ok x) factors xs ∧
        sign.apply (xs.foldl (· * ·) 1) = v := by
  change (foldValues (· * ·) 1 ((env.rules function?).value fuel) factors >>= fun x =>
    .ok (sign.apply x)) = .ok v ↔ _
  simp only [bind_eq_ok, foldValues_eq_ok, Except.ok.injEq]
  grind

theorem value_power_eq_ok {operands : List Expr} :
    (env.rules function?).value (fuel + 1) (.power operands sign) = .ok v ↔
      2 ≤ operands.length ∧
        ∃ xs, List.Forall₂ (fun e x => (env.rules function?).value fuel e = .ok x) operands xs ∧
          sign.apply (towerValue xs) = v := by
  change (stacked operands >>= fun tower =>
    (env.rules function?).value fuel tower.1 >>= fun start =>
      foldValues (fun exponent x => x.pow exponent) start ((env.rules function?).value fuel) tower.2
        >>= fun x => .ok (sign.apply x)) = .ok v ↔ _
  simp only [bind_eq_ok, foldValues_eq_ok, Except.ok.injEq, Prod.exists, stacked_eq_ok]
  constructor
  · rintro ⟨top, bases, ⟨hreverse, hbases⟩, start, hstart, x, ⟨xs, hxs, rfl⟩, rfl⟩
    have hlength := congrArg List.length hreverse
    have hpos := List.length_pos_iff.mpr hbases
    rw [List.length_reverse, List.length_cons] at hlength
    refine ⟨by omega, (start :: xs).reverse, ?_, by rw [foldl_pow]⟩
    rw [← List.forall₂_reverse_iff, List.reverse_reverse, hreverse]
    exact .cons hstart hxs
  · rintro ⟨hlength, xs, hxs, rfl⟩
    have hne : operands.reverse ≠ [] := by
      rw [Ne, List.reverse_eq_nil_iff]
      rintro rfl
      contradiction
    obtain ⟨top, bases, hreverse⟩ := List.exists_cons_of_ne_nil hne
    have hcount := congrArg List.length hreverse
    rw [List.length_reverse, List.length_cons] at hcount
    rw [← List.forall₂_reverse_iff, hreverse] at hxs
    obtain ⟨start, rest, hstart, hrest, hvalues⟩ := List.forall₂_cons_left_iff.mp hxs
    rw [← List.reverse_reverse xs, hvalues, ← foldl_pow]
    refine ⟨top, bases, ⟨hreverse, ?_⟩, start, hstart, _, ⟨rest, hrest, rfl⟩, rfl⟩
    exact List.length_pos_iff.mp (by omega)

end Nodes

/-! ## Unfoldings and values -/

theorem Unfolding.height_pos {e : Expr} (u : Unfolding env function? e) : 0 < u.height := by
  cases u <;> exact Nat.succ_pos _

mutual

/-- An expression has the value of its unfolding as soon as enough nodes may be opened. -/
theorem Unfolding.value_eq {e : Expr} (u : Unfolding env function? e) {fuel : Nat}
    (h : u.height ≤ fuel) : (env.rules function?).value fuel e = .ok u.value := by
  obtain ⟨fuel, rfl⟩ : ∃ more, fuel = more + 1 := ⟨fuel - 1, by have := u.height_pos; omega⟩
  match u with
  | .literal x sign => rfl
  | .var hname bound sign =>
    exact value_var_eq_ok.mpr ⟨_, hname, _, bound.value_eq (Nat.le_of_succ_le_succ h), rfl⟩
  | .call hname below sign =>
    exact value_call_eq_ok.mpr ⟨_, hname, _, below.value_eq (Nat.le_of_succ_le_succ h), rfl⟩
  | .sum below sign =>
    exact value_sum_eq_ok.mpr ⟨_, below.values_eq (Nat.le_of_succ_le_succ h), rfl⟩
  | .product below sign =>
    exact value_product_eq_ok.mpr ⟨_, below.values_eq (Nat.le_of_succ_le_succ h), rfl⟩
  | .power hlength below sign =>
    exact value_power_eq_ok.mpr ⟨hlength, _, below.values_eq (Nat.le_of_succ_le_succ h), rfl⟩
termination_by structural u

theorem Unfoldings.values_eq {es : List Expr} (us : Unfoldings env function? es) {fuel : Nat}
    (h : us.height ≤ fuel) :
    List.Forall₂ (fun e x => (env.rules function?).value fuel e = .ok x) es us.values := by
  match us with
  | .nil => exact .nil
  | .cons first rest =>
    obtain ⟨hfirst, hrest⟩ := Nat.max_le.mp h
    exact .cons (first.value_eq hfirst) (rest.values_eq hrest)
termination_by structural us

end

/-- Expressions that all have unfoldings of some height have them together. -/
theorem exists_unfoldings {below : Expr → Except EvalError Float} {nodes : Nat} {es : List Expr}
    {xs : List Float}
    (hbelow : ∀ e x, below e = .ok x →
      ∃ u : Unfolding env function? e, u.height ≤ nodes ∧ u.value = x)
    (h : List.Forall₂ (fun e x => below e = .ok x) es xs) :
    ∃ us : Unfoldings env function? es, us.height ≤ nodes ∧ us.values = xs := by
  induction h with
  | nil => exact ⟨.nil, Nat.zero_le _, rfl⟩
  | cons hx _ ih =>
    obtain ⟨first, hfirst, rfl⟩ := hbelow _ _ hx
    obtain ⟨rest, hrest, rfl⟩ := ih
    exact ⟨.cons first rest, Nat.max_le.mpr ⟨hfirst, hrest⟩, rfl⟩

/-- An expression that has a value has an unfolding, no higher than the nodes that may be opened. -/
theorem exists_unfolding {fuel : Nat} {e : Expr} {v : Float}
    (h : (env.rules function?).value fuel e = .ok v) :
    ∃ u : Unfolding env function? e, u.height ≤ fuel ∧ u.value = v := by
  induction fuel generalizing e v with
  | zero => contradiction
  | succ fuel ih =>
    have hbelow := fun e x hx => @ih e x hx
    cases e with
    | literal x sign => exact ⟨.literal x sign, Nat.le_add_left 1 fuel, Except.ok.inj h⟩
    | var name sign =>
      obtain ⟨e, hname, x, hx, rfl⟩ := value_var_eq_ok.mp h
      obtain ⟨u, hu, rfl⟩ := ih hx
      exact ⟨.var hname u sign, Nat.succ_le_succ hu, rfl⟩
    | call name argument sign =>
      obtain ⟨f, hname, x, hx, rfl⟩ := value_call_eq_ok.mp h
      obtain ⟨u, hu, rfl⟩ := ih hx
      exact ⟨.call hname u sign, Nat.succ_le_succ hu, rfl⟩
    | sum terms sign =>
      obtain ⟨xs, hxs, rfl⟩ := value_sum_eq_ok.mp h
      obtain ⟨us, hus, rfl⟩ := exists_unfoldings hbelow hxs
      exact ⟨.sum us sign, Nat.succ_le_succ hus, rfl⟩
    | product factors sign =>
      obtain ⟨xs, hxs, rfl⟩ := value_product_eq_ok.mp h
      obtain ⟨us, hus, rfl⟩ := exists_unfoldings hbelow hxs
      exact ⟨.product us sign, Nat.succ_le_succ hus, rfl⟩
    | power operands sign =>
      obtain ⟨hlength, xs, hxs, rfl⟩ := value_power_eq_ok.mp h
      obtain ⟨us, hus, rfl⟩ := exists_unfoldings hbelow hxs
      exact ⟨.power hlength us sign, Nat.succ_le_succ hus, rfl⟩

mutual

/-- There is only one way to unfold an expression. -/
theorem Unfolding.unique {e : Expr} (u : Unfolding env function? e) :
    ∀ u' : Unfolding env function? e, u = u' := by
  match u with
  | .literal x sign => rintro ⟨⟩; rfl
  | .var hname bound sign =>
    rintro (_ | ⟨hname', bound', _⟩)
    obtain rfl := Option.some.inj (hname.symm.trans hname')
    rw [bound.unique bound']
  | .call hname below sign =>
    rintro (_ | _ | ⟨hname', below', _⟩)
    obtain rfl := Option.some.inj (hname.symm.trans hname')
    rw [below.unique below']
  | .sum below sign =>
    rintro (_ | _ | _ | ⟨below', _⟩)
    rw [below.unique below']
  | .product below sign =>
    rintro (_ | _ | _ | _ | ⟨below', _⟩)
    rw [below.unique below']
  | .power hlength below sign =>
    rintro (_ | _ | _ | _ | _ | ⟨_, below', _⟩)
    rw [below.unique below']
termination_by structural u

theorem Unfoldings.unique {es : List Expr} (us : Unfoldings env function? es) :
    ∀ us' : Unfoldings env function? es, us = us' := by
  match us with
  | .nil => rintro ⟨⟩; rfl
  | .cons first rest =>
    rintro (_ | ⟨first', rest'⟩)
    rw [first.unique first', rest.unique rest']
termination_by structural us

end

/-! ## Cycles -/

/-- Whether a variable depends on itself. -/
def EnvOf.OnCycle (env : Env) (name : String) : Prop :=
  ∃ sign sign', Relation.TransGen env.Step (.var name sign) (.var name sign')

theorem Unfoldings.exists_of_mem {es : List Expr} (us : Unfoldings env function? es) {e : Expr}
    (h : e ∈ es) : ∃ u : Unfolding env function? e, u.height ≤ us.height := by
  match us with
  | .nil => contradiction
  | .cons first rest =>
    rcases List.mem_cons.mp h with rfl | h
    · exact ⟨first, Nat.le_max_left _ _⟩
    · obtain ⟨u, hu⟩ := rest.exists_of_mem h
      exact ⟨u, Nat.le_trans hu (Nat.le_max_right _ _)⟩
termination_by structural us

/-- Every step leads to a lower unfolding. -/
theorem Unfolding.exists_of_step {e e' : Expr} (u : Unfolding env function? e)
    (hstep : env.Step e e') : ∃ u' : Unfolding env function? e', u'.height < u.height := by
  cases u with
  | literal x sign => cases hstep; contradiction
  | var hname bound sign =>
    cases hstep with
    | child h => contradiction
    | binding h =>
      obtain rfl := Option.some.inj (hname.symm.trans h)
      exact ⟨bound, Nat.lt_succ_self _⟩
  | call hname below sign =>
    cases hstep with
    | child h =>
      obtain rfl := List.mem_singleton.mp h
      exact ⟨below, Nat.lt_succ_self _⟩
  | sum below sign | product below sign | power _ below sign =>
    cases hstep with
    | child h =>
      obtain ⟨u, hu⟩ := below.exists_of_mem h
      exact ⟨u, Nat.lt_succ_of_le hu⟩

theorem Unfolding.exists_of_transGen {e e' : Expr} (u : Unfolding env function? e)
    (h : Relation.TransGen env.Step e e') :
    ∃ u' : Unfolding env function? e', u'.height < u.height := by
  induction h with
  | single hstep => exact u.exists_of_step hstep
  | tail _ hstep ih =>
    obtain ⟨u', hu'⟩ := ih
    obtain ⟨u'', hu''⟩ := u'.exists_of_step hstep
    exact ⟨u'', Nat.lt_trans hu'' hu'⟩

/-- A variable that depends on itself has no unfolding, since that would be lower than itself. -/
theorem isEmpty_of_onCycle {name : String} (h : env.OnCycle name) (sign : Sign) :
    IsEmpty (Unfolding env function? (.var name sign)) := by
  obtain ⟨from', to', hcycle⟩ := h
  suffices hnone : ∀ height sign (u : Unfolding env function? (.var name sign)),
      u.height ≠ height from ⟨fun u => hnone u.height sign u rfl⟩
  intro height
  induction height using Nat.strong_induction_on with
  | _ height ih =>
    intro sign u hheight
    -- the sign does not matter for what the variable unfolds to
    cases u with
    | var hname bound _ =>
      obtain ⟨u', hu'⟩ := (Unfolding.var hname bound from').exists_of_transGen hcycle
      exact ih u'.height (hheight ▸ hu') to' u' rfl

theorem isEmpty_of_reaches {e : Expr} {name : String} {sign : Sign}
    (hreach : env.Reaches e (.var name sign)) (hcycle : env.OnCycle name) :
    IsEmpty (Unfolding env function? e) := by
  refine ⟨fun u => ?_⟩
  rcases Relation.reflTransGen_iff_eq_or_transGen.mp hreach with rfl | hsteps
  · exact (isEmpty_of_onCycle hcycle sign).false u
  · obtain ⟨u', -⟩ := u.exists_of_transGen hsteps
    exact (isEmpty_of_onCycle hcycle sign).false u'

/-! ## Evaluating -/

/-- An evaluation succeeds exactly if the variables of the expression can be unfolded to the end and
the tree that comes out is not higher than the nodes that may still be opened, and it gives the
value of that tree. So it never succeeds if the expression comes to a variable that depends on
itself. A failure names a fault of the expression. -/
theorem evaluate_eq_ok_iff_unfolding {e : Expr} (h : env.HasFunctions function? e) (m : Machine) :
    (∀ v, (evaluate (some env) e m).1 = .ok v ↔
      ∃ u : Unfolding env function? e,
        m.openNodes + u.height ≤ env.limits.maxEvalDepth ∧ u.value = v) ∧
    Subsingleton (Unfolding env function? e) ∧
    (∀ name sign, env.Reaches e (.var name sign) → env.OnCycle name →
      ∀ v, (evaluate (some env) e m).1 ≠ .ok v) ∧
    ∀ cause, (evaluate (some env) e m).1 = .error cause →
      env.HasFault (env.limits.maxEvalDepth - m.openNodes) e cause := by
  have hvalue := evaluate_eq_value h m
  refine ⟨fun v => ?_, ⟨Unfolding.unique⟩, fun name sign hreach hcycle v hv => ?_, ?_⟩
  · rw [hvalue]
    refine ⟨fun hv => ?_, ?_⟩
    · obtain ⟨u, hu, rfl⟩ := exists_unfolding hv
      have := u.height_pos
      exact ⟨u, by omega, rfl⟩
    · rintro ⟨u, hu, rfl⟩
      exact u.value_eq (by omega)
  · rw [hvalue] at hv
    obtain ⟨u, -, -⟩ := exists_unfolding hv
    exact (isEmpty_of_reaches hreach hcycle).false u
  · exact fun cause hcause => hasFault_of_evaluate h.callsStrict hcause

/-- A product of four levels, as many as the limit allows, beside a variable bound to itself. -/
theorem evaluate_product_beside_cycle :
    let env := ((Env.builtins ⟨1, 4⟩).bind "x" (.literal 2 .negative)).bind "y" (.var "y" .positive)
    let e := Expr.product
      [.call "Abs" (.var "x" .positive) .positive, .literal 3 .positive] .negative
    env.HasFunctions (fun name => unaryBuiltins.lookup name) e ∧
      ∃ u : Unfolding env (fun name => unaryBuiltins.lookup name) e,
        (Machine.start ⟨0⟩).openNodes + u.height ≤ env.limits.maxEvalDepth ∧ u.value = -6 := by
  intro env e
  have hx : ∀ e', env.lookup? "x" = some e' →
      env.HasFunctions (fun name => unaryBuiltins.lookup name) e' := by
    intro e' he'
    simp only [env, EnvOf.lookup?_bind] at he'
    obtain rfl : Expr.literal 2 .negative = e' := by simpa using he'
    exact .literal _ _
  have hAbs : env.function? "Abs" = (unaryBuiltins.lookup "Abs").map Program.unary := by
    simp only [env, EnvOf.function?_bind]
    exact EnvOf.function?_builtins _ (by decide)
  have h : env.HasFunctions (fun name => unaryBuiltins.lookup name) e :=
    .product (List.forall_mem_cons.mpr ⟨.call hAbs (.var hx _) _,
      List.forall_mem_singleton.mpr (.literal _ _)⟩) _
  have hrun : (evaluate (some env) e (.start ⟨0⟩)).1 = .ok (-6) := by decide +kernel
  exact ⟨h, ((evaluate_eq_ok_iff_unfolding h (.start ⟨0⟩)).1 (-6)).mp hrun⟩

end Reckon
