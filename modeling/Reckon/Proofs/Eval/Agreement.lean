import Reckon.Proofs.Eval.Strict

/-!
# What an evaluation looks up

An evaluation looks up no other names than those that its expression reaches. So two environments
that agree on these names, and on how many nodes may be open, give the same result for it and leave
the same behind (`evaluate_eq_of_agrees`), cycles among the bindings or not. An expression without
any names needs no environment.
-/

namespace Reckon

/-! ## The names that matter -/

/-- Whether another environment has under each name that an expression reaches the same binding or
the same function, or like this one none. -/
structure EnvOf.Agrees (env env' : Env) (e : Expr) : Prop where
  lookup {name : String} {sign : Sign} (h : env.Reaches e (.var name sign)) :
    env'.lookup? name = env.lookup? name
  function {name : String} {argument : Expr} {sign : Sign}
    (h : env.Reaches e (.call name argument sign)) : env'.function? name = env.function? name

/-- Whether there are neither variables nor calls in an expression. -/
inductive Expr.Nameless : Expr → Prop where
  | literal (x : Float) (sign : Sign) : Nameless (.literal x sign)
  | sum {terms : List Expr} (h : ∀ e ∈ terms, Nameless e) (sign : Sign) :
    Nameless (.sum terms sign)
  | product {factors : List Expr} (h : ∀ e ∈ factors, Nameless e) (sign : Sign) :
    Nameless (.product factors sign)
  | power {operands : List Expr} (h : ∀ e ∈ operands, Nameless e) (sign : Sign) :
    Nameless (.power operands sign)

section Names

variable {env env' : Env} {origin : Option Env} {e e' : Expr}

theorem EnvOf.Agrees.shows (h : env.Agrees env' e) : env.Shows (some env') e where
  bound hreach := by simp only [boundTo, h.lookup hreach]
  called hreach := by simp only [calledBy_some, h.function hreach]

theorem EnvOf.agrees_bind {name : String} (h : ∀ sign, ¬env.Reaches e (.var name sign))
    (bound : Expr) : env.Agrees (env.bind name bound) e where
  lookup {other sign} hreach := by
    rw [EnvOf.lookup?_bind, if_neg]
    rintro rfl
    exact h sign hreach
  function _ := rfl

theorem EnvOf.agrees_register {name : String}
    (h : ∀ argument sign, ¬env.Reaches e (.call name argument sign))
    (program : Expr → Program) : env.Agrees (env.register name program) e where
  lookup _ := rfl
  function {other argument sign} hreach := by
    rw [EnvOf.function?_register, if_neg]
    rintro rfl
    exact h argument sign hreach

theorem Expr.Nameless.child (h : e.Nameless) : ∀ e' ∈ e.children, e'.Nameless := by
  cases h with
  | literal x sign => exact List.forall_mem_nil _
  | sum h sign | product h sign | power h sign => exact h

theorem Expr.Nameless.reaches (h : e.Nameless) (hreach : env.Reaches e e') : e'.Nameless :=
  hreach.of_closed (fun _ he => he.child) (fun _ _ _ hvar _ => nomatch hvar) h

theorem Expr.Nameless.shows (h : e.Nameless) (origin : Option Env) : env.Shows origin e where
  bound hreach := by cases h.reaches hreach
  called hreach := by cases h.reaches hreach

theorem Expr.Nameless.callsStrict (h : e.Nameless) : env.CallsStrict e := by
  intro name argument sign program hreach _
  cases h.reaches hreach

/-! ## Nothing else is looked up -/

theorem Run.congruence_eq : Run.Congruence fun x y => x = y where
  pure _ := rfl
  bind h hnext := by rw [h, funext hnext]
  draw := rfl
  reported h := by rw [h]

/-- By induction on the nodes that are missing to the ceiling: the bindings may lead around in
cycles. -/
theorem EnvOf.Shows.walk_eq
    (hlimit : (limitsOf origin).maxEvalDepth = (limitsOf (some env)).maxEvalDepth) (fuel : Nat)
    (hstrict : env.CallsStrict e) (h : env.Shows origin e) :
    walk fuel origin e = walk fuel (some env) e := by
  induction fuel generalizing e with
  | zero => rw [walk, walk, hlimit]
  | succ fuel ih =>
    have hnode : Run.ofNode (some env) (walk fuel) e = Run.ofNode origin (walk fuel) e :=
      Run.congruence_eq.ofNode hstrict h (fun _ _ => rfl) _ _ fun e' hstep =>
        (ih (hstrict.step hstep) (h.step hstep)).symm
    rw [walk, walk, hlimit, hnode]

theorem EnvOf.Shows.evaluate_eq
    (hlimit : (limitsOf origin).maxEvalDepth = (limitsOf (some env)).maxEvalDepth)
    (hstrict : env.CallsStrict e) (h : env.Shows origin e) :
    evaluate origin e = evaluate (some env) e := by
  have hnode : evaluateNode origin e = evaluateNode (some env) e :=
    funext fun m => congrFun (h.walk_eq hlimit _ hstrict) m
  rw [evaluate, evaluate, hnode]

end Names

/-- Two environments that agree on what an expression reaches evaluate it alike, under the same
limit: with the same result, records and random numbers. The functions that it reaches must be
strict, as all built-in ones are (`EnvOf.callsStrict_builtins`). In particular nothing changes when
a name that is not reached is bound or registered anew, and an expression without names may as well
be evaluated without an environment. -/
theorem evaluate_eq_of_agrees (env : Env) (e : Expr) :
    (∀ env' : Env, env.CallsStrict e → env.Agrees env' e →
      env'.limits.maxEvalDepth = env.limits.maxEvalDepth →
      evaluate (some env') e = evaluate (some env) e) ∧
    (∀ (name : String) (bound : Expr), env.CallsStrict e →
      (∀ sign, ¬env.Reaches e (.var name sign)) →
      evaluate (some (env.bind name bound)) e = evaluate (some env) e) ∧
    (∀ (name : String) (program : Expr → Program), env.CallsStrict e →
      (∀ argument sign, ¬env.Reaches e (.call name argument sign)) →
      evaluate (some (env.register name program)) e = evaluate (some env) e) ∧
    (e.Nameless → env.limits.maxEvalDepth = Limits.standard.maxEvalDepth →
      evaluate none e = evaluate (some env) e) := by
  have hagree (env' : Env) (hstrict : env.CallsStrict e) (h : env.Agrees env' e)
      (hlimit : env'.limits.maxEvalDepth = env.limits.maxEvalDepth) :
      evaluate (some env') e = evaluate (some env) e :=
    h.shows.evaluate_eq hlimit hstrict
  refine ⟨hagree, fun name bound hstrict h => ?_, fun name program hstrict h => ?_,
    fun h hlimit => ?_⟩
  · exact hagree _ hstrict (env.agrees_bind h bound) rfl
  · exact hagree _ hstrict (env.agrees_register h program) rfl
  · exact (h.shows none).evaluate_eq hlimit.symm h.callsStrict

/-- Two variables that depend on each other, in environments with different constants, functions and
nesting limits. -/
theorem evaluate_eq_of_agrees_cycle :
    let x : Expr := .var "x" .positive
    let sine : Expr := .call "Sin" (.var "y" .negative) .positive
    let double : Expr := .product [x, .literal 2 .positive] .positive
    let env := ((Env.builtins ⟨4, 9⟩).bind "x" sine).bind "y" double
    let env' : Env := ⟨[("y", double), ("x", sine)], [("Sin", ⟨Program.unary Float.sin⟩)], ⟨7, 9⟩⟩
    let number : Expr := .power [.literal 2 .positive, .sum [] .negative] .positive
    (env.CallsStrict x ∧ env.Agrees env' x ∧ evaluate (some env') x = evaluate (some env) x) ∧
      ((∀ sign, ¬env.Reaches x (.var "pi" sign)) ∧
        evaluate (some (env.bind "pi" x)) x = evaluate (some env) x) ∧
      ((∀ argument sign, ¬env.Reaches x (.call "Cos" argument sign)) ∧
        evaluate (some (env.register "Cos" rand)) x = evaluate (some env) x) ∧
      number.Nameless ∧ evaluate none number = evaluate (some (Env.builtins .standard)) number := by
  intro x sine double env env' number
  have hbuiltins : env.function? = (Env.builtins ⟨4, 9⟩).function? := rfl
  have hstrict : env.CallsStrict x := EnvOf.callsStrict_builtins hbuiltins x
  let reached : List Expr := [x, sine, .var "y" .negative, double, .literal 2 .positive]
  have hvar : ∀ name sign, .var name sign ∈ reached → name = "x" ∨ name = "y" := by
    intro name sign h
    simp [reached, x, sine, double] at h
    exact h.imp And.left And.left
  have hreach : ∀ e, env.Reaches x e → e ∈ reached := by
    refine fun e h => h.of_closed ?_ (fun name sign e he hname => ?_) List.mem_cons_self
    · simp [reached, x, sine, double, Expr.children]
    · rcases hvar name sign he with rfl | rfl
      · simp [← Option.some.inj hname, reached]
      · simp [← Option.some.inj hname, reached]
  have hcall : ∀ name argument sign, env.Reaches x (.call name argument sign) → name = "Sin" := by
    intro name argument sign h
    have hmem := hreach _ h
    simp [reached, x, sine, double] at hmem
    exact hmem.1
  have hagrees : env.Agrees env' x := by
    constructor
    case lookup =>
      intro name sign h
      rcases hvar name sign (hreach _ h) with rfl | rfl
      · rfl
      · rfl
    case function =>
      intro name argument sign h
      obtain rfl := hcall name argument sign h
      rfl
  have hpi : ∀ sign, ¬env.Reaches x (.var "pi" sign) := by
    intro sign h
    simpa using hvar "pi" sign (hreach _ h)
  have hcos : ∀ argument sign, ¬env.Reaches x (.call "Cos" argument sign) := by
    intro argument sign h
    simpa using hcall "Cos" argument sign h
  have hnumber : number.Nameless := by
    refine .power (List.forall_mem_cons.mpr ⟨.literal _ _, List.forall_mem_singleton.mpr ?_⟩) _
    exact .sum (List.forall_mem_nil _) _
  obtain ⟨hequal, hbind, hregister, -⟩ := evaluate_eq_of_agrees env x
  obtain ⟨-, -, -, hnone⟩ := evaluate_eq_of_agrees (Env.builtins .standard) number
  exact ⟨⟨hstrict, hagrees, hequal env' hstrict hagrees rfl⟩,
    ⟨hpi, hbind "pi" x hstrict hpi⟩, ⟨hcos, hregister "Cos" rand hstrict hcos⟩,
    hnumber, hnone hnumber rfl⟩

end Reckon
