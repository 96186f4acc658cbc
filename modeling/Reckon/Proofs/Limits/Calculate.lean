import Reckon.Proofs.Eval.Strict
import Reckon.Proofs.Limits.Compile

/-!
# Calculating under larger limits

An evaluation counts its open nodes against the limit and looks at the limit for nothing else. As
long as functions pass failures on, a larger limit changes nothing but depth errors, neither the
result nor what is left on the machine (`evaluate_extendsTo`). Together with compiling this holds of
whole lines (`calculate_extendsTo`).
-/

namespace Reckon

namespace Run

/-- Whether one computation does the same as another one on every machine, unless it goes too deep
there. -/
def ExtendsTo {α : Type} (x y : Run α) : Prop :=
  ∀ m, x m = y m ∨ ∃ cause, cause.IsTooDeep ∧ (x m).1 = .error cause

namespace ExtendsTo

variable {α β : Type}

theorem refl (x : Run α) : x.ExtendsTo x := fun _ => .inl rfl

theorem bind {x y : Run α} {f g : α → Run β} (h : x.ExtendsTo y)
    (hnext : ∀ a, (f a).ExtendsTo (g a)) : (x >>= f).ExtendsTo (y >>= g) := by
  intro m
  rw [bind_apply, bind_apply]
  rcases h m with heq | ⟨cause, hcause, hx⟩
  · rw [heq]
    obtain ⟨result, m'⟩ := y m
    cases result with
    | ok a => exact hnext a m'
    | error cause => exact .inl rfl
  · generalize x m = done at hx ⊢
    obtain ⟨result, m'⟩ := done
    obtain rfl : result = .error cause := hx
    exact .inr ⟨cause, hcause, rfl⟩

theorem reported {x y : Run α} (h : x.ExtendsTo y) : x.reported.ExtendsTo y.reported := by
  intro m
  rw [Run.reported, Run.reported]
  rcases h m with heq | ⟨cause, hcause, hx⟩
  · exact .inl (by rw [heq])
  · generalize x m = done at hx ⊢
    obtain ⟨result, m'⟩ := done
    obtain rfl : result = .error cause := hx
    exact .inr ⟨cause, hcause, rfl⟩

theorem node {limit limit' : Nat} (hle : limit ≤ limit') {x y : Run α} (h : x.ExtendsTo y) :
    (Run.node limit x).ExtendsTo (Run.node limit' y) := by
  intro m
  rw [Run.node, Run.node]
  by_cases hdepth : limit ≤ m.openNodes
  · rw [if_pos hdepth]
    exact .inr ⟨.tooDeep limit, trivial, rfl⟩
  · rw [if_neg hdepth, if_neg (by omega)]
    rcases h { m with openNodes := m.openNodes + 1 } with heq | ⟨cause, hcause, hx⟩
    · exact .inl (by rw [heq])
    · exact .inr ⟨cause, hcause, hx⟩

theorem congruence : Congruence fun x y => x.ExtendsTo y where
  pure _ := refl _
  bind := bind
  draw := refl _
  reported := reported

end ExtendsTo

end Run

/-! ## Evaluating -/

section Evaluate

variable {env : Env} {limits : Limits}

/-- Other limits leave all names as they are. -/
theorem shows_limits (env : Env) (limits : Limits) (e : Expr) :
    env.Shows (some { env with limits }) e := ⟨fun _ => rfl, fun _ => rfl⟩

theorem walk_extendsTo (hle : env.limits.maxEvalDepth ≤ limits.maxEvalDepth) (fuel : Nat) {e : Expr}
    (hstrict : env.CallsStrict e) :
    (walk fuel (some env) e).ExtendsTo (walk fuel (some { env with limits }) e) := by
  induction fuel generalizing e with
  | zero => exact fun m => .inr ⟨.tooDeep env.limits.maxEvalDepth, trivial, rfl⟩
  | succ fuel ih =>
    exact .node hle (Run.ExtendsTo.congruence.ofNode hstrict (shows_limits env limits e)
      (fun cause _ => .refl _) _ _ fun e' hstep => ih (hstrict.step hstep))

/-- Whatever an evaluation does, it does under larger limits, unless it goes too deep. -/
theorem evaluate_extendsTo (hle : env.limits.maxEvalDepth ≤ limits.maxEvalDepth) {e : Expr}
    (hstrict : env.CallsStrict e) :
    (evaluate (some env) e).ExtendsTo (evaluate (some { env with limits }) e) :=
  .reported fun m => walk_extendsTo hle _ hstrict m

end Evaluate

/-! ## Whole lines -/

/-- The records of a line that does not nest too deep are the same under larger limits. -/
theorem compileRecords_eq {limits limits' : Limits} (hle : limits.maxDepth ≤ limits'.maxDepth)
    {line : String} (h : ∀ cause : Error, cause.IsTooDeep → compile limits line ≠ .error cause) :
    compileRecords limits line = compileRecords limits' line := by
  rw [compileRecords, compileRecords]
  cases htokens : tokenize line with
  | error cause => rfl
  | ok tokens =>
    have hcompile : compile limits line = ((Tree.ofTokens limits tokens).mapError .group >>=
        fun tree => (Expr.ofTree limits tree).mapError .parse) := by
      rw [compile, htokens]
      rfl
    have htree : Tree.ofTokens limits tokens = Tree.ofTokens limits' tokens :=
      (Tree.readTokens_upTo hle [] [] tokens).eq_of_not fun cause hcause htree =>
        h (.group cause) hcause (by rw [hcompile, Tree.ofTokens, htree]; rfl)
    dsimp only
    rw [← htree]
    cases hread : Tree.ofTokens limits tokens with
    | error cause => rfl
    | ok tree =>
      have hparse : compile limits line = (Expr.ofTree limits tree).mapError .parse := by
        rw [hcompile, hread]
        rfl
      have hexpr : Expr.ofTree limits tree = Expr.ofTree limits' tree :=
        (Expr.ofTree_upTo hle tree).eq_of_not fun cause hcause hexpr =>
          h (.parse cause) hcause (by rw [hparse, hexpr]; rfl)
      dsimp only
      rw [hexpr]

/-- Whatever calculating a line does, it does under larger limits, unless it goes too deep. -/
theorem calculate_extendsTo {env : Env} {limits : Limits} {line : String}
    (hdepth : env.limits.maxDepth ≤ limits.maxDepth)
    (hevalDepth : env.limits.maxEvalDepth ≤ limits.maxEvalDepth)
    (hstrict : ∀ e, compile env.limits line = .ok e → env.CallsStrict e) (m : Machine) :
    calculate (some env) line m = calculate (some { env with limits }) line m ∨
      ∃ cause, cause.IsTooDeep ∧ (calculate (some env) line m).1 = .error cause := by
  by_cases hdeep : ∃ cause : Error, cause.IsTooDeep ∧ compile env.limits line = .error cause
  · obtain ⟨cause, hcause, hcompile⟩ := hdeep
    exact .inr ⟨cause, hcause, by simp [calculate, limitsOf, hcompile]⟩
  · have hno : ∀ cause : Error, cause.IsTooDeep → compile env.limits line ≠ .error cause :=
      fun cause hcause hcompile => hdeep ⟨cause, hcause, hcompile⟩
    have hcompile := (compile_upTo hdepth line).eq_of_not hno
    rw [calculate, calculate]
    simp only [limitsOf, Option.map_some, Option.getD_some]
    rw [← hcompile, ← compileRecords_eq hdepth hno]
    cases he : compile env.limits line with
    | error cause => exact .inl rfl
    | ok e =>
      dsimp only
      rcases evaluate_extendsTo hevalDepth (hstrict e he) (m.tell _) with heq | ⟨cause, hcause, hx⟩
      · exact .inl (by rw [heq])
      · exact .inr ⟨.eval cause, hcause, by rw [hx]; rfl⟩

/-- In an environment with the built-in functions, a line that does not fail because of a limit does
the very same under all larger limits: it has the same value or error, draws the same random numbers
and leaves the same records. -/
theorem calculate_eq_of_limits_le {env : Env} {initial limits : Limits}
    (hbuiltins : env.function? = (Env.builtins initial).function?)
    (hdepth : env.limits.maxDepth ≤ limits.maxDepth)
    (hevalDepth : env.limits.maxEvalDepth ≤ limits.maxEvalDepth) (line : String) (m : Machine)
    (h : ∀ cause : Error, cause.IsTooDeep → (calculate (some env) line m).1 ≠ .error cause) :
    calculate (some { env with limits }) line m = calculate (some env) line m := by
  have hstrict : ∀ e, compile env.limits line = .ok e → env.CallsStrict e :=
    fun e _ => EnvOf.callsStrict_builtins hbuiltins e
  rcases calculate_extendsTo hdepth hevalDepth hstrict m with heq | ⟨cause, hcause, hresult⟩
  · exact heq.symm
  · exact absurd hresult (h cause hcause)

/-- A missing variable in front of one that is bound to itself. -/
theorem calculate_missing_before_cycle :
    let env := (Env.builtins ⟨1, 3⟩).bind "loop" (.var "loop" .positive)
    env.function? = (Env.builtins ⟨1, 3⟩).function? ∧ env.limits.maxDepth ≤ 8 ∧
      env.limits.maxEvalDepth ≤ 9 ∧
      (∀ cause : Error, cause.IsTooDeep →
        (calculate (some env) "(u)+loop" (.start ⟨0⟩)).1 ≠ .error cause) ∧
      calculate (some { env with limits := ⟨8, 9⟩ }) "(u)+loop" (.start ⟨0⟩) =
        calculate (some env) "(u)+loop" (.start ⟨0⟩) := by
  intro env
  have hrun : (calculate (some env) "(u)+loop" (.start ⟨0⟩)).1 =
      .error (.eval (.unboundVariable "u")) := by decide +kernel
  have hshallow : ∀ cause : Error, cause.IsTooDeep →
      (calculate (some env) "(u)+loop" (.start ⟨0⟩)).1 ≠ .error cause := by
    intro cause hcause h
    obtain rfl := Except.error.inj (hrun.symm.trans h)
    exact hcause
  have hdepth : env.limits.maxDepth ≤ 8 := by decide
  have hevalDepth : env.limits.maxEvalDepth ≤ (⟨8, 9⟩ : Limits).maxEvalDepth := by decide
  have hbuiltins : env.function? = (Env.builtins ⟨1, 3⟩).function? :=
    funext fun name => EnvOf.function?_bind _ "loop" name _
  exact ⟨hbuiltins, hdepth, hevalDepth, hshallow,
    calculate_eq_of_limits_le hbuiltins hdepth hevalDepth _ _ hshallow⟩

end Reckon
