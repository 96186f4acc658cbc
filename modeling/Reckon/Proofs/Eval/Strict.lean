import Reckon.Proofs.Eval.Pure

/-!
# Strict functions

A strict function evaluates its argument and nothing else, and when that fails it fails for the same
cause. All built-in functions are strict, `Rand` included (`EnvOf.callsStrict_builtins`). So what is
preserved by sequences and by draws is preserved by a whole node of an expression, as soon as it
holds of the evaluations below it (`Run.Congruence.ofNode`).
-/

namespace Reckon

namespace Program

/-- Whether a program evaluates only `argument`, in the environment of the call, and passes on the
failures of that. -/
inductive Strict (argument : Expr) : Program → Prop where
  | done (x : Float) : Strict argument (.done (.ok x))
  | draw {next : Float → Program} (h : ∀ x, Strict argument (next x)) : Strict argument (.draw next)
  | evaluate {next : Except EvalError Float → Program}
      (hfailure : ∀ cause, next (.error cause) = .done (.error cause))
      (h : ∀ x, Strict argument (next (.ok x))) : Strict argument (.evaluate argument next)

theorem strict_value {argument : Expr} {next : Float → Program}
    (h : ∀ x, (next x).Strict argument) : (value argument next).Strict argument :=
  .evaluate (fun _ => rfl) h

theorem strict_unary (f : Float → Float) (argument : Expr) : (unary f argument).Strict argument :=
  strict_value fun x => .done (f x)

theorem strict_rand (argument : Expr) : (rand argument).Strict argument :=
  strict_value fun x => .draw fun fraction => .done (x * fraction)

end Program

namespace EnvOf

/-- Whether the functions that an expression calls on the way are strict. -/
def CallsStrict (env : Env) (e : Expr) : Prop :=
  ∀ name argument sign program, env.Reaches e (.call name argument sign) →
    env.function? name = some program → (program argument).Strict argument

theorem CallsStrict.step {env : Env} {e e' : Expr} (h : env.CallsStrict e) (hstep : env.Step e e') :
    env.CallsStrict e' :=
  fun name argument sign program hreach => h name argument sign program (.head hstep hreach)

/-- Functions of numbers are strict. -/
theorem HasFunctions.callsStrict {env : Env} {function? : String → Option (Float → Float)}
    {e : Expr} (h : env.HasFunctions function? e) : env.CallsStrict e := by
  intro name argument sign program hreach hprogram
  rw [h name argument sign hreach] at hprogram
  obtain ⟨f, -, rfl⟩ := Option.map_eq_some_iff.mp hprogram
  exact Program.strict_unary f argument

theorem function?_builtins_rand (limits : Limits) :
    (Env.builtins limits).function? "Rand" = some rand := by
  rw [Env.builtins, function?_register, if_pos rfl]

/-- All built-in functions are strict, also where only some of them are registered. -/
theorem callsStrict_of_builtin {env : Env} {limits : Limits}
    (h : ∀ name program, env.function? name = some program →
      (Env.builtins limits).function? name = some program) (e : Expr) : env.CallsStrict e := by
  intro name argument sign program _ hprogram
  have hprogram := h name program hprogram
  by_cases hname : name = "Rand"
  · rw [hname, function?_builtins_rand] at hprogram
    obtain rfl := Option.some.inj hprogram
    exact Program.strict_rand argument
  · rw [function?_builtins limits hname] at hprogram
    obtain ⟨f, -, rfl⟩ := Option.map_eq_some_iff.mp hprogram
    exact Program.strict_unary f argument

theorem callsStrict_builtins {env : Env} {limits : Limits}
    (h : env.function? = (Env.builtins limits).function?) (e : Expr) : env.CallsStrict e :=
  callsStrict_of_builtin (fun _ _ hprogram => h ▸ hprogram) e

end EnvOf

/-! ## What evaluations preserve -/

theorem calledBy_eq_ok {env : Env} {name : String} {program : Expr → Program} :
    calledBy (some env) name = .ok program ↔ env.function? name = some program := by
  rw [calledBy_some]
  cases env.function? name <;> simp

/-- A strict function goes on with the value of its argument. -/
theorem Program.perform_evaluate {argument : Expr} {next : Except EvalError Float → Program}
    (hfailure : ∀ cause, next (.error cause) = .done (.error cause)) (here : Expr → Run Float)
    (elsewhere : Option Env → Expr → Run Float) :
    (ProgramOf.evaluate argument next).perform here elsewhere =
      here argument >>= fun x => (next (.ok x)).perform here elsewhere := by
  funext m
  rw [ProgramOf.perform, Run.bind_apply, Run.bind_apply, Run.outcome]
  obtain ⟨result, m'⟩ := here argument m
  cases result with
  | ok x => rfl
  | error cause =>
    dsimp only
    rw [hfailure]
    rfl

/-- Whether an environment, or the lack of one, has for all names that an expression reaches in
another environment what that one has for them. -/
structure EnvOf.Shows (env : Env) (origin : Option Env) (e : Expr) : Prop where
  bound {name : String} {sign : Sign} (h : env.Reaches e (.var name sign)) :
    boundTo origin name = boundTo (some env) name
  called {name : String} {argument : Expr} {sign : Sign}
    (h : env.Reaches e (.call name argument sign)) :
    calledBy origin name = calledBy (some env) name

theorem EnvOf.Shows.refl (env : Env) (e : Expr) : env.Shows (some env) e :=
  ⟨fun _ => rfl, fun _ => rfl⟩

theorem EnvOf.Shows.step {env : Env} {origin : Option Env} {e e' : Expr} (h : env.Shows origin e)
    (hstep : env.Step e e') : env.Shows origin e' where
  bound hreach := h.bound (.head hstep hreach)
  called hreach := h.called (.head hstep hreach)

/-- Whether a node fails by itself, before anything below it is evaluated. -/
def EnvOf.FailsAt (env : Env) (cause : EvalError) : Expr → Prop
  | .var name _ => boundTo (some env) name = .error cause
  | .call name _ _ => calledBy (some env) name = .error cause
  | .power operands _ => stacked operands = .error cause
  | _ => False

namespace Run

theorem ofOutcome_ok_bind {α β : Type} (a : α) (f : α → Run β) :
    (ofOutcome (.ok a) >>= f) = f a := rfl

theorem ofOutcome_error_bind {α β : Type} (cause : EvalError) (f : α → Run β) :
    (ofOutcome (.error cause) >>= f) = ofOutcome (.error cause) := rfl

/-- A relation between computations that sequences, draws and reports of failures preserve. -/
structure Congruence (R : ∀ {α : Type}, Run α → Run α → Prop) : Prop where
  pure {α : Type} (a : α) : R (pure a : Run α) (pure a)
  bind {α β : Type} {x y : Run α} {f g : α → Run β} (h : R x y) (hnext : ∀ a, R (f a) (g a)) :
    R (x >>= f) (y >>= g)
  draw : R draw draw
  reported {x y : Run Float} (h : R x y) : R x.reported y.reported

namespace Congruence

variable {R : ∀ {α : Type}, Run α → Run α → Prop} {env : Env}

theorem folded (cong : Congruence R) {below below' : Expr → Run Float} {es : List Expr}
    (h : ∀ e ∈ es, R (below e) (below' e)) (op : Float → Float → Float) (start : Float) :
    R (Run.folded op start below es) (Run.folded op start below' es) := by
  induction es generalizing start with
  | nil => exact cong.pure start
  | cons e es ih =>
    rw [List.forall_mem_cons] at h
    rw [Run.folded, Run.folded, List.foldlM_cons, List.foldlM_cons]
    exact cong.bind (cong.bind h.1 fun x => cong.pure _) fun total => ih h.2 total

theorem perform (cong : Congruence R) {argument : Expr} {program : Program}
    (hstrict : program.Strict argument) {here here' : Expr → Run Float}
    (h : R (here argument) (here' argument))
    (elsewhere elsewhere' : Option Env → Expr → Run Float) :
    R (program.perform here elsewhere) (program.perform here' elsewhere') := by
  induction hstrict with
  | done x => exact cong.pure x
  | draw _ ih => exact cong.bind cong.draw ih
  | evaluate hfailure _ ih =>
    rw [Program.perform_evaluate hfailure, Program.perform_evaluate hfailure]
    exact cong.bind h ih

/-- A node whose functions are strict preserves what the evaluations below it and its own failures
have, in an environment and where all names mean the same that the node reaches. -/
theorem ofNode (cong : Congruence R) {e : Expr} (hstrict : env.CallsStrict e) {origin : Option Env}
    (hshows : env.Shows origin e)
    (hfails : ∀ cause, env.FailsAt cause e →
      R (ofOutcome (.error cause) : Run Float) (ofOutcome (.error cause)))
    (below below' : Option Env → Expr → Run Float)
    (h : ∀ e', env.Step e e' → R (below (some env) e') (below' origin e')) :
    R (Run.ofNode (some env) below e) (Run.ofNode origin below' e) := by
  cases e with
  | literal x sign => exact cong.pure _
  | var name sign =>
    rw [Run.ofNode, Run.ofNode, hshows.bound .refl]
    cases hbound : boundTo (some env) name with
    | error cause =>
      rw [ofOutcome_error_bind, ofOutcome_error_bind]
      exact hfails cause hbound
    | ok e =>
      rw [ofOutcome_ok_bind, ofOutcome_ok_bind]
      exact cong.bind (h e (.binding (boundTo_eq_ok.mp hbound))) fun x => cong.pure _
  | call name argument sign =>
    rw [Run.ofNode, Run.ofNode, hshows.called .refl]
    cases hcalled : calledBy (some env) name with
    | error cause =>
      rw [ofOutcome_error_bind, ofOutcome_error_bind]
      exact hfails cause hcalled
    | ok program =>
      have hprogram := hstrict name argument sign program .refl (calledBy_eq_ok.mp hcalled)
      rw [ofOutcome_ok_bind, ofOutcome_ok_bind]
      have hargument := cong.reported (h argument (.child List.mem_cons_self))
      exact cong.bind (cong.perform hprogram hargument _ _) fun x => cong.pure _
  | sum terms sign =>
    exact cong.bind (cong.folded (fun e he => h e (.child he)) _ _) fun x => cong.pure _
  | product factors sign =>
    exact cong.bind (cong.folded (fun e he => h e (.child he)) _ _) fun x => cong.pure _
  | power operands sign =>
    rw [Run.ofNode, Run.ofNode]
    cases htower : stacked operands with
    | error cause =>
      rw [ofOutcome_error_bind, ofOutcome_error_bind]
      exact hfails cause htower
    | ok tower =>
      obtain ⟨htop, hbases⟩ := mem_of_stacked htower
      rw [ofOutcome_ok_bind, ofOutcome_ok_bind]
      exact cong.bind (h _ (.child htop)) fun start =>
        cong.bind (cong.folded (fun e he => h e (.child (hbases e he))) _ start) fun x =>
          cong.pure _

end Congruence

end Run

end Reckon
