import Mathlib.Logic.Relation
import Reckon.Env.Builtins

/-!
# What an evaluation reaches

An evaluation goes from an expression to the ones below it and from a variable to what it is bound
to. Only the functions that are called on the way matter, and it is enough that these are functions
of numbers (`EnvOf.HasFunctions`): all the built-in ones except `Rand` are
(`EnvOf.hasFunctions_builtins`).
-/

namespace Reckon.EnvOf

/-- Whether evaluating an expression may go on directly with another one. -/
inductive Step (env : Env) : Expr → Expr → Prop where
  | child {e e' : Expr} (h : e' ∈ e.children) : Step env e e'
  | binding {name : String} {sign : Sign} {e : Expr} (h : env.lookup? name = some e) :
    Step env (.var name sign) e

/-- Whether evaluating an expression may come to another one. -/
def Reaches (env : Env) : Expr → Expr → Prop := Relation.ReflTransGen env.Step

/-- What holds of the expressions below and of the bound ones as well holds of all that is reached.
-/
theorem Reaches.of_closed {env : Env} {P : Expr → Prop} {e e' : Expr} (h : env.Reaches e e')
    (hchild : ∀ e, P e → ∀ e' ∈ e.children, P e')
    (hbound : ∀ name sign e, P (.var name sign) → env.lookup? name = some e → P e) (he : P e) :
    P e' := by
  induction h with
  | refl => exact he
  | tail _ hstep ih =>
    cases hstep with
    | child hmem => exact hchild _ ih _ hmem
    | binding hname => exact hbound _ _ _ ih hname

/-- Whether the functions that an expression reaches are given functions of numbers, or missing if
none is given. -/
def HasFunctions (env : Env) (function? : String → Option (Float → Float)) (e : Expr) : Prop :=
  ∀ name argument sign, env.Reaches e (.call name argument sign) →
    env.function? name = (function? name).map Program.unary

namespace HasFunctions

variable {env : Env} {function? : String → Option (Float → Float)} {e : Expr}

theorem step {e' : Expr} (h : env.HasFunctions function? e) (hstep : env.Step e e') :
    env.HasFunctions function? e' :=
  fun name argument sign hreach => h name argument sign (.head hstep hreach)

theorem of_step
    (hcall : ∀ name argument sign, e = .call name argument sign →
      env.function? name = (function? name).map Program.unary)
    (hstep : ∀ e', env.Step e e' → env.HasFunctions function? e') :
    env.HasFunctions function? e := by
  intro name argument sign hreach
  rcases Relation.ReflTransGen.cases_head hreach with rfl | ⟨e', hfirst, hrest⟩
  · exact hcall name argument sign rfl
  · exact hstep e' hfirst name argument sign hrest

/-- The functions that an expression reaches are those that the expressions below it reach, unless
it is a variable or a call itself. -/
theorem of_children (hvar : ∀ name sign, e ≠ .var name sign)
    (hcall : ∀ name argument sign, e ≠ .call name argument sign)
    (hchildren : ∀ e' ∈ e.children, env.HasFunctions function? e') :
    env.HasFunctions function? e := by
  refine of_step (fun name argument sign he => absurd he (hcall name argument sign)) ?_
  intro e' hstep
  cases hstep with
  | child h => exact hchildren e' h
  | @binding name sign _ h => exact absurd rfl (hvar name sign)

theorem literal (x : Float) (sign : Sign) : env.HasFunctions function? (.literal x sign) :=
  of_children nofun nofun (List.forall_mem_nil _)

theorem var {name : String} (h : ∀ e, env.lookup? name = some e → env.HasFunctions function? e)
    (sign : Sign) : env.HasFunctions function? (.var name sign) := by
  refine of_step nofun fun e' hstep => ?_
  cases hstep with
  | child hchild => contradiction
  | binding hname => exact h e' hname

theorem sum {terms : List Expr} (h : ∀ e ∈ terms, env.HasFunctions function? e) (sign : Sign) :
    env.HasFunctions function? (.sum terms sign) := of_children nofun nofun h

theorem product {factors : List Expr} (h : ∀ e ∈ factors, env.HasFunctions function? e)
    (sign : Sign) : env.HasFunctions function? (.product factors sign) := of_children nofun nofun h

theorem power {operands : List Expr} (h : ∀ e ∈ operands, env.HasFunctions function? e)
    (sign : Sign) : env.HasFunctions function? (.power operands sign) := of_children nofun nofun h

theorem call {name : String} {argument : Expr}
    (hname : env.function? name = (function? name).map Program.unary)
    (h : env.HasFunctions function? argument) (sign : Sign) :
    env.HasFunctions function? (.call name argument sign) := by
  refine of_step (fun name' argument' sign' heq => ?_) fun e' hstep => ?_
  · obtain ⟨rfl, -, -⟩ := Expr.call.inj heq
    exact hname
  · cases hstep with
    | child hchild =>
      obtain rfl := List.mem_singleton.mp hchild
      exact h

end HasFunctions

/-! ## The built-in functions -/

@[simp] theorem function?_empty (limits : Limits) (name : String) :
    (Env.empty limits).function? name = none := rfl

/-- Registering functions of numbers under different names. -/
theorem function?_foldl_register {entries : List (String × (Float → Float))}
    (h : (entries.map Prod.fst).Nodup) (env : Env) (name : String) :
    (entries.foldl (fun env entry => env.register entry.1 (.unary entry.2)) env).function? name =
      ((entries.lookup name).map Program.unary).or (env.function? name) := by
  induction entries generalizing env with
  | nil => rfl
  | cons entry rest ih =>
    obtain ⟨key, f⟩ := entry
    obtain ⟨hkey, hrest⟩ := List.nodup_cons.mp h
    rw [List.foldl_cons, ih hrest, function?_register, List.lookup_cons]
    by_cases hname : name = key
    · subst hname
      have hnone : rest.lookup name = none := by
        rw [List.lookup_eq_none_iff]
        intro entry hentry
        exact bne_iff_ne.mpr fun heq => hkey (List.mem_map.mpr ⟨entry, hentry, heq.symm⟩)
      simp [hnone]
    · simp [hname, beq_false_of_ne hname]

theorem lookup?_foldl_register (entries : List (String × (Float → Float))) (env : Env)
    (name : String) :
    (entries.foldl (fun env entry => env.register entry.1 (.unary entry.2)) env).lookup? name =
      env.lookup? name := by
  induction entries generalizing env with
  | nil => rfl
  | cons entry rest ih => rw [List.foldl_cons, ih, lookup?_register]

/-- The built-in environment binds nothing but two constants. -/
theorem lookup?_builtins {limits : Limits} {name : String} {e : Expr}
    (h : (Env.builtins limits).lookup? name = some e) : ∃ x, e = .literal x .positive := by
  rw [Env.builtins, lookup?_register, lookup?_foldl_register, lookup?_bind, lookup?_bind] at h
  split at h
  · exact ⟨_, (Option.some.inj h).symm⟩
  · split at h
    · exact ⟨_, (Option.some.inj h).symm⟩
    · contradiction

theorem function?_builtins (limits : Limits) {name : String} (h : name ≠ "Rand") :
    (Env.builtins limits).function? name = (unaryBuiltins.lookup name).map Program.unary := by
  rw [Env.builtins, function?_register, if_neg h, function?_foldl_register (by decide),
    function?_bind, function?_bind, function?_empty, Option.or_none]

/-- In an environment with the built-in functions, what reaches no call of `Rand` reaches functions
of numbers only. -/
theorem hasFunctions_builtins {env : Env} {limits : Limits} {e : Expr}
    (h : env.function? = (Env.builtins limits).function?)
    (hrand : ∀ argument sign, ¬env.Reaches e (.call "Rand" argument sign)) :
    env.HasFunctions (fun name => unaryBuiltins.lookup name) e := by
  intro name argument sign hreach
  have hname : name ≠ "Rand" := by
    rintro rfl
    exact hrand argument sign hreach
  rw [h]
  exact function?_builtins limits hname

end Reckon.EnvOf
