import Reckon.Proofs.Eval.Interpreter
import Reckon.Proofs.Outcome

/-!
# The counter of open nodes

The evaluator counts open nodes in the state of its machine, and nothing else ends it: the fuel that
it runs on does not show (`evaluateNode_eq`). The count is always the number of nodes around the
current one, through all environments and function calls, so the evaluator agrees with the one that
hands the depth down and has no counter (`evaluate_refines_depth`). This holds for the codes of any
library, whatever they make of the environment that they are called in.
-/

namespace Reckon

variable {Code : Type}

/-- In a sequence of two steps the second one starts where the first one ends. -/
theorem bind_run {σ α β : Type} (x : ExceptT EvalError (StateM σ) α)
    (f : α → ExceptT EvalError (StateM σ) β) (s : σ) :
    (x >>= f) s =
      match x s with
      | (.ok a, s') => f a s'
      | (.error cause, s') => (.error cause, s') := by
  change (ExceptT.bindCont f (x s).1) (x s).2 = _
  obtain ⟨result, s'⟩ := x s
  cases result <;> rfl

/-! ## Without a counter -/

/-- Computations that share nothing but random numbers. -/
abbrev Uncounted (α : Type) := ExceptT EvalError (StateM Source) α

/-- The evaluator that knows the depth from its argument only. -/
def Interpreter.lexical : Interpreter Code Uncounted where
  fail cause := throw cause
  draw := fun source => (.ok source.draw.1, source.draw.2)
  outcome run := fun source => (.ok (run source).1, (run source).2)
  reported run := run
  node _ _ _ run := run

/-- Whether a computation on machines with `d` open nodes does the same as one without a counter and
leaves `d` nodes open. -/
def Uncounts (d : Nat) {α : Type} (x : Run α) (y : Uncounted α) : Prop :=
  ∀ m : Machine, m.openNodes = d →
    (x m).1 = (y m.source).1 ∧ (x m).2.source = (y m.source).2 ∧ (x m).2.openNodes = d

theorem simulation_lexical : Simulation (@Interpreter.lexical Code) Uncounts where
  congr heq h := by
    intro m hm
    rw [heq m hm]
    exact h m hm
  pure a := fun m hm => ⟨rfl, rfl, hm⟩
  bind {d α β x y f g} h hnext := by
    intro m hm
    obtain ⟨hresult, hsource, hopen⟩ := h m hm
    rw [Run.bind_apply, bind_run]
    generalize x m = left at hresult hsource hopen ⊢
    generalize y m.source = right at hresult hsource ⊢
    obtain ⟨result, m'⟩ := left
    obtain ⟨result', source'⟩ := right
    obtain rfl : result = result' := hresult
    obtain rfl : m'.source = source' := hsource
    cases result with
    | ok a => exact hnext a m' hopen
    | error cause => exact ⟨rfl, rfl, hopen⟩
  fail cause := fun m hm => ⟨rfl, rfl, hm⟩
  draw {d} := by
    rintro ⟨opened, source, log⟩ hm
    change opened = d at hm
    exact ⟨rfl, rfl, hm⟩
  outcome h := by
    intro m hm
    obtain ⟨hresult, hsource, hopen⟩ := h m hm
    exact ⟨congrArg Except.ok hresult, hsource, hopen⟩
  reported {d x y} h := by
    intro m hm
    obtain ⟨hresult, hsource, hopen⟩ := h m hm
    rw [Run.reported]
    generalize x m = left at hresult hsource hopen ⊢
    obtain ⟨result, m'⟩ := left
    cases result <;> exact ⟨hresult, hsource, hopen⟩
  refused hlimit e := fun m hm => ⟨rfl, rfl, hm⟩
  node {d origin} hlimit e x y h := by
    intro m hm
    obtain ⟨hresult, hsource, hopen⟩ := h { m with openNodes := m.openNodes + 1 } (by simp [hm])
    rw [Run.node, if_neg (by omega)]
    exact ⟨hresult, hsource, by simp [hopen]⟩

/-! ## With a record of every node -/

/-- What there is to say about a node when it comes up. -/
structure Entry (Code : Type) where
  /-- The environment that the evaluation of the node was started in. -/
  origin : Option (EnvOf Code)
  node : Expr
  /-- The nodes that are being worked on, through all evaluations, the innermost one in front. -/
  enclosing : List Expr
  /-- What the counter shows. -/
  openNodes : Nat
  /-- Whether the node was not worked on because the limit is reached. -/
  refused : Bool

/-- Whether the counter shows the nodes that enclose an entry, on top of those at the start, and
whether the entry is refused when they reach the limit of its environment. -/
structure Entry.Sound (start : Nat) (entry : Entry Code) : Prop where
  counted : entry.openNodes = start + entry.enclosing.length
  refused_iff : entry.refused = true ↔
    (limitsOf entry.origin).maxEvalDepth ≤ start + entry.enclosing.length

/-- Computations on a machine that know the nodes around them and record the nodes that come up, the
latest in front. -/
abbrev Traced (Code : Type) (α : Type) :=
  ReaderT (List Expr) (ExceptT EvalError (StateM (Machine × List (Entry Code)))) α

/-- The evaluator with its counter, which records each node that comes up. -/
def Interpreter.traced : Interpreter Code (Traced Code) where
  fail cause := throw cause
  draw := fun _ s =>
    (.ok s.1.source.draw.1, ({ s.1 with source := s.1.source.draw.2 }, s.2))
  outcome run := fun enclosing s => (.ok (run enclosing s).1, (run enclosing s).2)
  reported run := fun enclosing s =>
    match run enclosing s with
    | (.ok a, s') => (.ok a, s')
    | (.error cause, s') => (.error cause, (s'.1.tell [.evaluationFailed cause], s'.2))
  node origin _ e run := fun enclosing s =>
    let limit := (limitsOf origin).maxEvalDepth
    if limit ≤ s.1.openNodes then
      (.error (.tooDeep limit), (s.1, ⟨origin, e, enclosing, s.1.openNodes, true⟩ :: s.2))
    else
      let done := run (e :: enclosing) ({ s.1 with openNodes := s.1.openNodes + 1 },
        ⟨origin, e, enclosing, s.1.openNodes, false⟩ :: s.2)
      (done.1, ({ done.2.1 with openNodes := done.2.1.openNodes - 1 }, done.2.2))

/-- Whether a computation on machines with `d` open nodes, those at the start and the enclosing
ones, is another one without its record, and whether the record is sound. -/
def Traces (start d : Nat) {α : Type} (x : Run α) (y : Traced Code α) : Prop :=
  ∀ (m : Machine) (enclosing : List Expr) (entries : List (Entry Code)), m.openNodes = d →
    d = start + enclosing.length → (∀ entry ∈ entries, entry.Sound start) →
    (y enclosing (m, entries)).1 = (x m).1 ∧ (y enclosing (m, entries)).2.1 = (x m).2 ∧
      (x m).2.openNodes = d ∧ ∀ entry ∈ (y enclosing (m, entries)).2.2, entry.Sound start

theorem simulation_traced (start : Nat) :
    Simulation (@Interpreter.traced Code) (Traces start) where
  congr heq h := by
    intro m enclosing entries hm hd hentries
    rw [heq m hm]
    exact h m enclosing entries hm hd hentries
  pure a := fun m enclosing entries hm hd hentries => ⟨rfl, rfl, hm, hentries⟩
  bind {d α β x y f g} h hnext := by
    intro m enclosing entries hm hd hentries
    obtain ⟨hresult, hmachine, hopen, hsound⟩ := h m enclosing entries hm hd hentries
    change ((y enclosing >>= fun a => g a enclosing) _).1 = _ ∧
      ((y enclosing >>= fun a => g a enclosing) _).2.1 = _ ∧ _ ∧
      ∀ entry ∈ ((y enclosing >>= fun a => g a enclosing) _).2.2, _
    rw [Run.bind_apply, bind_run]
    generalize x m = left at hresult hmachine hopen ⊢
    generalize y enclosing (m, entries) = right at hresult hmachine hsound ⊢
    obtain ⟨result, m'⟩ := left
    obtain ⟨result', m'', entries'⟩ := right
    obtain rfl : result' = result := hresult
    obtain rfl : m'' = m' := hmachine
    cases result' with
    | ok a => exact hnext a m'' enclosing entries' hopen hd hsound
    | error cause => exact ⟨rfl, rfl, hopen, hsound⟩
  fail cause := fun m enclosing entries hm hd hentries => ⟨rfl, rfl, hm, hentries⟩
  draw {d} := by
    rintro ⟨opened, source, log⟩ enclosing entries hm hd hentries
    change opened = d at hm
    exact ⟨rfl, rfl, hm, hentries⟩
  outcome h := by
    intro m enclosing entries hm hd hentries
    obtain ⟨hresult, hmachine, hopen, hsound⟩ := h m enclosing entries hm hd hentries
    exact ⟨congrArg Except.ok hresult, hmachine, hopen, hsound⟩
  reported {d x y} h := by
    intro m enclosing entries hm hd hentries
    obtain ⟨hresult, hmachine, hopen, hsound⟩ := h m enclosing entries hm hd hentries
    simp only [Interpreter.traced, Run.reported]
    generalize x m = left at hresult hmachine hopen ⊢
    generalize y enclosing (m, entries) = right at hresult hmachine hsound ⊢
    obtain ⟨result, m'⟩ := left
    obtain ⟨result', m'', entries'⟩ := right
    obtain rfl : result' = result := hresult
    obtain rfl : m'' = m' := hmachine
    cases result' <;> exact ⟨rfl, rfl, hopen, hsound⟩
  refused {d origin} hlimit e := by
    intro m enclosing entries hm hd hentries
    have hrefused : (limitsOf origin).maxEvalDepth ≤ m.openNodes := by omega
    simp only [Interpreter.traced, if_pos hrefused]
    refine ⟨rfl, rfl, hm, List.forall_mem_cons.mpr ⟨⟨?_, ?_⟩, hentries⟩⟩
    · exact hm.trans hd
    · exact ⟨fun _ => hd ▸ hlimit, fun _ => rfl⟩
  node {d origin} hlimit e x y h := by
    intro m enclosing entries hm hd hentries
    have hadmitted : ¬(limitsOf origin).maxEvalDepth ≤ m.openNodes := by omega
    obtain ⟨hresult, hmachine, hopen, hsound⟩ := h { m with openNodes := m.openNodes + 1 }
      (e :: enclosing) (⟨origin, e, enclosing, m.openNodes, false⟩ :: entries) (by simp [hm])
      (by simp [hd, Nat.add_assoc]) (List.forall_mem_cons.mpr
        ⟨⟨hm.trans hd, by simp; omega⟩, hentries⟩)
    simp only [Interpreter.traced, if_neg hadmitted, Run.node]
    refine ⟨hresult, ?_, ?_, hsound⟩
    · rw [hmachine]
    · rw [hopen]
      exact Nat.add_sub_cancel d 1

/-! ## Without fuel -/

/-- What is traced alike is the same. -/
theorem Traces.unique {d : Nat} {α : Type} {x x' : Run α} {y : Traced Code α}
    (h : Traces d d x y) (h' : Traces d d x' y) (m : Machine) (hm : m.openNodes = d) :
    x m = x' m := by
  obtain ⟨hresult, hmachine, -⟩ := h m [] [] hm rfl (List.forall_mem_nil _)
  obtain ⟨hresult', hmachine', -⟩ := h' m [] [] hm rfl (List.forall_mem_nil _)
  exact Prod.ext (hresult.symm.trans hresult') (hmachine.symm.trans hmachine')

/-- The fuel does not show: a node counts itself, is refused at the limit of its environment, and
works on what is below it in the same way. -/
theorem evaluateNode_eq [Library Code] (origin : Option (EnvOf Code)) (e : Expr) :
    evaluateNode origin e =
      Run.node (limitsOf origin).maxEvalDepth (Run.ofNode origin evaluateNode e) := by
  funext m
  by_cases hlimit : (limitsOf origin).maxEvalDepth ≤ m.openNodes
  · rw [evaluateNode, walk_refused hlimit, Run.node, if_pos hlimit]
  · have hceiling := (limitsOf origin).maxEvalDepth_le_ceiling
    obtain ⟨fuel, hfuel⟩ : ∃ fuel, Limits.ceiling - m.openNodes = fuel + 1 :=
      ⟨Limits.ceiling - m.openNodes - 1, by omega⟩
    have hleft : Limits.ceiling ≤ fuel + (m.openNodes + 1) := by omega
    -- what is below is traced alike on the fuel that is left and on fuel of its own
    have sim := @simulation_traced Code (m.openNodes + 1)
    have hwalk := sim.ofNode (fun started e => sim.walk hleft started e) origin e
    have hnode :=
      sim.ofNode (fun started e => sim.evaluateNode started (m.openNodes + 1) e) origin e
    have hsame := hwalk.unique hnode { m with openNodes := m.openNodes + 1 } rfl
    rw [evaluateNode, hfuel, walk, Run.node, Run.node, if_neg hlimit, if_neg hlimit, hsame]

/-! ## Functions that make environments of their own -/

/-- Functions that evaluate in other environments than that of the call, or in none. -/
inductive Detour where
  /-- Evaluates its argument in a copy of the environment where a variable is bound. -/
  | binding (name : String) (e : Expr)
  /-- Evaluates its argument without an environment, and has a value in store if that fails. -/
  | rescuing (otherwise : Float)
  /-- Calls itself in a copy of the environment under other limits, where it is registered again so
  that it comes back to the limits that it was called under. -/
  | swapping (name : String) (limits : Limits)

instance : Library Detour where
  program
    | .binding name e, env, argument => .evaluateIn (env.bind name e) argument .done
    | .rescuing otherwise, _, argument =>
      .evaluateBare argument fun
        | .ok x => .done (.ok x)
        | .error _ => .done (.ok otherwise)
    | .swapping name limits, env, argument =>
      .evaluateIn { env.install name (.swapping name env.limits) with limits }
        (.call name argument .positive) .done

/-! ## The counter is the depth -/

section Counter

variable [Library Code]

/-- The machine after some evaluations, one after the other, whether they succeed or fail. -/
def Machine.afterAll (m : Machine) (earlier : List (Option (EnvOf Code) × Expr)) : Machine :=
  earlier.foldl (fun m started => (evaluate started.1 started.2 m).2) m

theorem openNodes_evaluate (env : Option (EnvOf Code)) (e : Expr) (m : Machine) :
    (evaluate env e m).2.openNodes = m.openNodes :=
  (simulation_lexical.evaluate env m.openNodes e m rfl).2.2

/-- What an evaluation does depends on the open nodes and the random numbers, not on the log. -/
theorem evaluate_congr (env : Option (EnvOf Code)) (e : Expr) {m m' : Machine}
    (hopen : m.openNodes = m'.openNodes) (hsource : m.source = m'.source) :
    (evaluate env e m).1 = (evaluate env e m').1 ∧
      (evaluate env e m).2.source = (evaluate env e m').2.source := by
  obtain ⟨hresult, hleft, -⟩ := simulation_lexical.evaluate env m.openNodes e m rfl
  obtain ⟨hresult', hleft', -⟩ := simulation_lexical.evaluate env m.openNodes e m' hopen.symm
  rw [hresult, hleft, hresult', hleft', hsource]
  exact ⟨rfl, rfl⟩

theorem Machine.openNodes_afterAll (m : Machine) (earlier : List (Option (EnvOf Code) × Expr)) :
    (m.afterAll earlier).openNodes = m.openNodes := by
  induction earlier generalizing m with
  | nil => rfl
  | cons started earlier ih =>
    change (Machine.afterAll _ earlier).openNodes = _
    rw [ih, openNodes_evaluate]

/-- Whatever the codes of the library do, an evaluation gives the counter back. While it runs, the
counter shows at every node how many nodes are open around it, and a node is refused when these
reach the limit of its environment. The result is that of the evaluator without a counter, so no
earlier evaluation changes it, except for the random numbers that are left. -/
theorem evaluate_refines_depth (env : Option (EnvOf Code)) (e : Expr) (m : Machine) :
    (evaluate env e m).2.openNodes = m.openNodes ∧
    (let traced := Interpreter.traced.evaluate env m.openNodes e [] (m, [])
     (traced.1, traced.2.1) = evaluate env e m ∧
       ∀ entry ∈ traced.2.2, entry.Sound m.openNodes) ∧
    (let lexical := Interpreter.lexical.evaluate env m.openNodes e m.source
     ((evaluate env e m).1, (evaluate env e m).2.source) = lexical) ∧
    ∀ earlier, (evaluate env e (m.afterAll earlier)).1 =
      (evaluate env e { m with source := (m.afterAll earlier).source }).1 := by
  obtain ⟨hresult, hsource, hopen⟩ := simulation_lexical.evaluate env m.openNodes e m rfl
  obtain ⟨htraced, hmachine, -, hsound⟩ :=
    (simulation_traced m.openNodes).evaluate env m.openNodes e
    m [] [] rfl rfl (List.forall_mem_nil _)
  refine ⟨hopen, ⟨Prod.ext htraced hmachine, hsound⟩, Prod.ext hresult hsource, fun earlier => ?_⟩
  have hafter := simulation_lexical.evaluate env m.openNodes e (m.afterAll earlier)
    (m.openNodes_afterAll earlier)
  have hfresh := simulation_lexical.evaluate env m.openNodes e
    { m with source := (m.afterAll earlier).source } rfl
  exact hafter.1.trans hfresh.1.symm

end Counter

/-- A binding, a failure that is caught, and two environments that call each other under different
limits until the depth reaches that of one of them. The nodes come up in this order, each with the
count of open nodes and the limit. -/
theorem evaluate_refines_depth_detours :
    let env : EnvOf Detour := ⟨[], [("Let", .binding "x" (.literal 2 .positive)),
      ("Try", .rescuing 7), ("Loop", .swapping "Loop" ⟨1, 6⟩)], ⟨1, 4⟩⟩
    let e : Expr := .sum [.call "Let" (.var "x" .positive) .positive,
      .call "Try" (.var "y" .positive) .positive,
      .call "Loop" (.literal 0 .positive) .positive] .positive
    let traced := Interpreter.traced.evaluate (some env) 0 e [] (.start ⟨0⟩, [])
    (traced.2.2.reverse.map fun entry =>
        (entry.openNodes, (limitsOf entry.origin).maxEvalDepth, entry.refused)) =
      [(0, 4, false), (1, 4, false), (2, 4, false), (3, 4, false), (1, 4, false), (2, 512, false),
        (1, 4, false), (2, 6, false), (3, 4, false), (4, 6, false), (5, 4, true)] ∧
      (∀ entry ∈ traced.2.2, entry.Sound 0) ∧
      (evaluate (some env) e (.start ⟨0⟩)).1 = .error (.tooDeep 4) ∧
      (evaluate (some env) e (.start ⟨0⟩)).2.openNodes = 0 := by
  intro env e traced
  obtain ⟨hopen, ⟨-, hsound⟩, -, -⟩ := evaluate_refines_depth (some env) e (.start ⟨0⟩)
  refine ⟨?_, hsound, ?_, hopen⟩
  · decide +kernel
  · decide +kernel

end Reckon
