import Mathlib.Data.List.Chain
import Reckon.Proofs.Eval.Strict

/-!
# What a failed evaluation tells

An evaluation whose functions are strict fails only for a fault that the expression has
(`hasFault_of_evaluate`): a variable without a binding, a name without a function, a power with too
few operands, or a path of steps as long as the nodes that may be opened. It never asks for an
environment, since strict functions evaluate in the environment of the call.
-/

namespace Reckon

/-- Whether an expression has the fault that an evaluation reports which may open `nodes` nodes. -/
def EnvOf.HasFault (env : Env) (nodes : Nat) (e : Expr) : EvalError → Prop
  | .unboundVariable name => ∃ sign, env.Reaches e (.var name sign) ∧ env.lookup? name = none
  | .unknownFunction name =>
    ∃ argument sign, env.Reaches e (.call name argument sign) ∧ env.function? name = none
  | .contextRequired _ => False
  | .malformedPower count =>
    ∃ operands sign, env.Reaches e (.power operands sign) ∧ operands.length = count ∧ count < 2
  | .tooDeep limit => limit = env.limits.maxEvalDepth ∧
    ∃ path : List Expr, path.length = nodes ∧ (e :: path).IsChain env.Step

/-- What is wrong after a step is wrong before it. -/
theorem EnvOf.HasFault.of_step {env : Env} {nodes : Nat} {e e' : Expr} {cause : EvalError}
    (hstep : env.Step e e') (h : env.HasFault nodes e' cause) :
    env.HasFault (nodes + 1) e cause := by
  cases cause with
  | unboundVariable name =>
    obtain ⟨sign, hreach, hname⟩ := h
    exact ⟨sign, .head hstep hreach, hname⟩
  | unknownFunction name =>
    obtain ⟨argument, sign, hreach, hname⟩ := h
    exact ⟨argument, sign, .head hstep hreach, hname⟩
  | contextRequired name => exact h
  | malformedPower count =>
    obtain ⟨operands, sign, hreach, hcount⟩ := h
    exact ⟨operands, sign, .head hstep hreach, hcount⟩
  | tooDeep limit =>
    obtain ⟨hlimit, path, hlength, hpath⟩ := h
    exact ⟨hlimit, e' :: path, congrArg (· + 1) hlength, .cons_cons hstep hpath⟩

/-! ## Computations and their causes of failure -/

/-- Whether a computation on machines with `d` open nodes leaves as many open and fails for causes
of a given kind only. -/
def FailsOnly (d : Nat) (kind : EvalError → Prop) {α : Type} (x : Run α) : Prop :=
  ∀ m : Machine, m.openNodes = d →
    (x m).2.openNodes = d ∧ ∀ cause, (x m).1 = .error cause → kind cause

namespace FailsOnly

variable {d : Nat} {kind : EvalError → Prop} {α β : Type}

theorem ofOutcome {outcome : Except EvalError α}
    (h : ∀ cause, outcome = .error cause → kind cause) :
    FailsOnly d kind (Run.ofOutcome outcome) := fun _ hm => ⟨hm, h⟩

theorem pure (a : α) : FailsOnly d kind (pure a) := fun _ hm => ⟨hm, nofun⟩

theorem draw : FailsOnly d kind Run.draw := by
  rintro ⟨opened, source, log⟩ hm
  change opened = d at hm
  exact ⟨hm, fun cause hcause => by simp only [Run.draw, reduceCtorEq] at hcause⟩

theorem mono {kind' : EvalError → Prop} {x : Run α} (h : FailsOnly d kind x)
    (hkind : ∀ cause, kind cause → kind' cause) : FailsOnly d kind' x :=
  fun m hm => ⟨(h m hm).1, fun cause hcause => hkind cause ((h m hm).2 cause hcause)⟩

theorem bind {x : Run α} {f : α → Run β} (h : FailsOnly d kind x)
    (hnext : ∀ a, FailsOnly d kind (f a)) : FailsOnly d kind (x >>= f) := by
  intro m hm
  obtain ⟨hopen, hfails⟩ := h m hm
  rw [Run.bind_apply]
  generalize x m = done at hopen hfails ⊢
  obtain ⟨result, m'⟩ := done
  cases result with
  | ok a => exact hnext a m' hopen
  | error cause => exact ⟨hopen, fun cause' hcause => Except.error.inj hcause ▸ hfails cause rfl⟩

theorem reported {x : Run α} (h : FailsOnly d kind x) : FailsOnly d kind x.reported := by
  intro m hm
  obtain ⟨hopen, hfails⟩ := h m hm
  rw [Run.reported]
  generalize x m = done at hopen hfails ⊢
  obtain ⟨result, m'⟩ := done
  cases result <;> exact ⟨hopen, hfails⟩

theorem node {limit : Nat} (hlimit : d < limit) {x : Run α} (h : FailsOnly (d + 1) kind x) :
    FailsOnly d kind (Run.node limit x) := by
  intro m hm
  obtain ⟨hopen, hfails⟩ := h { m with openNodes := m.openNodes + 1 } (by simp [hm])
  rw [Run.node, if_neg (by omega)]
  exact ⟨by simp [hopen], hfails⟩

theorem congruence (d : Nat) (kind : EvalError → Prop) :
    Run.Congruence fun x _ => FailsOnly d kind x where
  pure := pure
  bind := bind
  draw := draw
  reported := reported

end FailsOnly

/-! ## The faults of an expression -/

section Evaluate

variable {env : Env} {nodes d : Nat}

theorem hasFault_of_boundTo {name : String} {sign : Sign} {cause : EvalError}
    (h : boundTo (some env) name = .error cause) :
    env.HasFault nodes (.var name sign) cause := by
  rw [boundTo] at h
  cases hname : env.lookup? name with
  | none =>
    rw [hname] at h
    obtain rfl := Except.error.inj h
    exact ⟨sign, .refl, hname⟩
  | some e =>
    rw [hname] at h
    contradiction

theorem hasFault_of_stacked {operands : List Expr} {sign : Sign} {cause : EvalError}
    (h : stacked operands = .error cause) : env.HasFault nodes (.power operands sign) cause := by
  have hlength : operands.reverse.length = operands.length := List.length_reverse
  rw [stacked] at h
  split at h
  · contradiction
  · rename_i hfew
    obtain rfl := Except.error.inj h
    refine ⟨operands, sign, .refl, rfl, ?_⟩
    rw [← hlength]
    generalize operands.reverse = reversed at hfew ⊢
    rcases reversed with _ | ⟨top, _ | ⟨base, bases⟩⟩
    · exact Nat.zero_lt_two
    · exact Nat.one_lt_two
    · exact (hfew top base bases rfl).elim

theorem hasFault_of_calledBy {name : String} {argument : Expr} {sign : Sign} {cause : EvalError}
    (h : calledBy (some env) name = .error cause) :
    env.HasFault nodes (.call name argument sign) cause := by
  rw [calledBy_some] at h
  cases hname : env.function? name with
  | none =>
    rw [hname] at h
    obtain rfl := Except.error.inj h
    exact ⟨argument, sign, .refl, hname⟩
  | some program =>
    rw [hname] at h
    contradiction

theorem hasFault_of_failsAt {e : Expr} {cause : EvalError} (h : env.FailsAt cause e) :
    env.HasFault nodes e cause := by
  cases e with
  | literal _ _ => exact h.elim
  | var name sign => exact hasFault_of_boundTo h
  | call name argument sign => exact hasFault_of_calledBy h
  | sum _ _ => exact h.elim
  | product _ _ => exact h.elim
  | power operands sign => exact hasFault_of_stacked h

theorem failsOnly_ofNode {e : Expr} (hstrict : env.CallsStrict e)
    {below : Option Env → Expr → Run Float}
    (h : ∀ e', env.Step e e' → FailsOnly d (env.HasFault nodes e') (below (some env) e')) :
    FailsOnly d (env.HasFault (nodes + 1) e) (Run.ofNode (some env) below e) := by
  refine (FailsOnly.congruence d _).ofNode hstrict (.refl env e) (fun cause hcause => ?_) below
    below fun e' hstep => (h e' hstep).mono fun _ hfault => hfault.of_step hstep
  exact .ofOutcome fun cause' heq => Except.error.inj heq ▸ hasFault_of_failsAt hcause

theorem failsOnly_walk {fuel : Nat} (hfuel : Limits.ceiling ≤ fuel + d) {e : Expr}
    (hstrict : env.CallsStrict e) :
    FailsOnly d (env.HasFault (env.limits.maxEvalDepth - d) e) (walk fuel (some env) e) := by
  refine walk_induction (motive := fun d origin e x => origin = some env → env.CallsStrict e →
      FailsOnly d (env.HasFault (env.limits.maxEvalDepth - d) e) x)
    ?_ ?_ hfuel (some env) e rfl hstrict
  · rintro d _ e fuel hlimit rfl - m hm
    rw [limitsOf_some] at hlimit
    rw [walk_refused (hm ▸ hlimit), Nat.sub_eq_zero_of_le hlimit]
    refine ⟨hm, fun cause hcause => ?_⟩
    obtain rfl := Except.error.inj hcause
    -- the empty path is as long as the nodes that may be opened
    exact ⟨rfl, [], rfl, .singleton e⟩
  · rintro d _ e fuel hlimit ih rfl hstrict
    rw [limitsOf_some] at hlimit
    have hnodes : env.limits.maxEvalDepth - d = env.limits.maxEvalDepth - (d + 1) + 1 := by omega
    rw [hnodes]
    exact .node hlimit (failsOnly_ofNode hstrict fun e' hstep => ih _ _ rfl (hstrict.step hstep))

/-- An evaluation tells the truth about why it fails. -/
theorem hasFault_of_evaluate {e : Expr} (hstrict : env.CallsStrict e) {m : Machine}
    {cause : EvalError} (h : (evaluate (some env) e m).1 = .error cause) :
    env.HasFault (env.limits.maxEvalDepth - m.openNodes) e cause := by
  have hnode : FailsOnly m.openNodes (env.HasFault (env.limits.maxEvalDepth - m.openNodes) e)
      (evaluateNode (some env) e) := by
    intro m' hm'
    rw [evaluateNode, hm']
    exact failsOnly_walk (Nat.le_add_of_sub_le (Nat.le_refl _)) hstrict m' hm'
  exact (hnode.reported m rfl).2 cause h

end Evaluate

end Reckon
