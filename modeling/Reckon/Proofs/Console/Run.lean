import Reckon.Console.Transcript
import Reckon.Proofs.Eval.Depth

/-!
# Runs of sessions

A session takes lines one after the other (`Session.run`), and its transcript shows the replies
(`Transcript.ofLines_eq`). What it replies depends on what its environment binds, on the random
numbers that are left and on the open nodes, but neither on its log nor on the order in which names
were bound: sessions that agree on these reply alike and go on to agree (`Session.Like.run`).
-/

namespace Reckon

/-! ## Environments that bind the same -/

/-- Whether two environments bind and register the same, perhaps in another order. -/
structure EnvOf.Same (env env' : Env) : Prop where
  lookup (name : String) : env.lookup? name = env'.lookup? name
  function (name : String) : env.function? name = env'.function? name
  limits : env.limits = env'.limits

namespace EnvOf.Same

variable {env env' : Env}

theorem refl (env : Env) : env.Same env := ⟨fun _ => rfl, fun _ => rfl, rfl⟩

theorem bind (h : env.Same env') (name : String) (e : Expr) :
    (env.bind name e).Same (env'.bind name e) where
  lookup other := by rw [lookup?_bind, lookup?_bind, h.lookup]
  function := h.function
  limits := h.limits

/-- Bindings of different names may be made in either order. -/
theorem bind_bind (env : Env) {name other : String} (hne : name ≠ other) (e e' : Expr) :
    ((env.bind name e).bind other e').Same ((env.bind other e').bind name e) where
  lookup third := by
    simp only [lookup?_bind]
    by_cases hname : third = name
    · rw [if_neg (hname ▸ hne), if_pos hname, if_pos hname]
    · rw [if_neg hname, if_neg hname]
  function _ := rfl
  limits := rfl

theorem walk (h : env.Same env') (fuel : Nat) : walk fuel (some env) = walk fuel (some env') := by
  have hlimits : limitsOf (some env) = limitsOf (some env') := h.limits
  have hbound : boundTo (some env) = boundTo (some env') :=
    funext fun name => by simp only [boundTo, h.lookup]
  have hcalled : calledBy (some env) = calledBy (some env') :=
    funext fun name => by simp only [calledBy_some, h.function]
  induction fuel with
  | zero => funext e; rw [Reckon.walk, Reckon.walk, hlimits]
  | succ fuel ih =>
    funext e
    rw [Reckon.walk, Reckon.walk, hlimits]
    cases e <;> simp only [Run.ofNode, hbound, hcalled, ih]

theorem evaluate (h : env.Same env') :
    Reckon.evaluate (some env) = Reckon.evaluate (some env') := by
  have hnode : evaluateNode (some env) = evaluateNode (some env') :=
    funext fun e => funext fun m => congrFun (congrFun (h.walk _) e) m
  funext e
  rw [Reckon.evaluate, Reckon.evaluate, hnode]

end EnvOf.Same

namespace Session

/-! ## What a session makes of an expression -/

section Outcomes

variable {s : Session} {name source : String} {e : Expr}

/-- The reply to an expression whose evaluation has a given result. -/
def answer (source : String) : Except EvalError Float → Reply
  | .ok x => .value x
  | .error cause => .failed source (.eval cause)

theorem calculate_of_ok (h : compile s.env.limits source = .ok e) :
    s.calculate source =
      let done := evaluate (some s.env) e (s.machine.tell (compileRecords s.env.limits source))
      (answer source done.1, ⟨s.env, done.2⟩) := by
  simp only [calculate, Reckon.calculate, limitsOf, Option.map_some, Option.getD_some, h]
  cases (evaluate (some s.env) e (s.machine.tell (compileRecords s.env.limits source))).1 <;> rfl

theorem calculate_of_error {cause : Error} (h : compile s.env.limits source = .error cause) :
    s.calculate source =
      (.failed source cause, ⟨s.env, s.machine.tell (compileRecords s.env.limits source)⟩) := by
  simp only [calculate, Reckon.calculate, limitsOf, Option.map_some, Option.getD_some, h]

theorem bind_of_invalid (h : isVariableName name.toList = false) :
    s.bind name source = (.invalidName name, s) := by
  rw [bind, if_neg (by rw [h]; exact Bool.false_ne_true)]

theorem bind_of_ok (hname : isVariableName name.toList = true)
    (h : compile s.env.limits source = .ok e) :
    s.bind name source = (.bound name e,
      ⟨s.env.bind name e, s.machine.tell (compileRecords s.env.limits source)⟩) := by
  simp only [bind, if_pos hname, h]

theorem bind_of_error (hname : isVariableName name.toList = true) {cause : Error}
    (h : compile s.env.limits source = .error cause) :
    s.bind name source =
      (.failed source cause, ⟨s.env, s.machine.tell (compileRecords s.env.limits source)⟩) := by
  simp only [bind, if_pos hname, h]

end Outcomes

/-! ## One line after the other -/

/-- Takes lines one after the other, up to one that ends the session: the replies to them, and the
session after them. -/
def run (s : Session) : List String → List (Option Reply) × Session
  | [] => ([], s)
  | typed :: rest =>
    match s.turn typed with
    | none => ([], s)
    | some (reply, s) =>
      let done := s.run rest
      (reply :: done.1, done.2)

theorem run_cons_of_turn {s s' : Session} {typed : String} {reply : Option Reply}
    (h : s.turn typed = some (reply, s')) (rest : List String) :
    s.run (typed :: rest) = (reply :: (s'.run rest).1, (s'.run rest).2) := by
  rw [run, h]

theorem run_cons_of_ends {s : Session} {typed : String} (h : s.turn typed = none)
    (rest : List String) : s.run (typed :: rest) = ([], s) := by
  rw [run, h]

theorem turn_eq_none {s : Session} {typed : String} :
    s.turn typed = none ↔ ends (Text.trim typed) = true := by
  rw [turn]
  by_cases hends : ends (Text.trim typed) = true
  · simp [hends]
  · by_cases hempty : (Text.trim typed).isEmpty = true
    · simp [hends, hempty]
    · simp [hends, hempty]

theorem exists_turn (s : Session) {typed : String} (h : ends (Text.trim typed) = false) :
    ∃ reply s', s.turn typed = some (reply, s') := by
  cases hturn : s.turn typed with
  | none => rw [turn_eq_none, h] at hturn; contradiction
  | some done => exact ⟨done.1, done.2, rfl⟩

/-- Every line of a session that goes on gets its reply, and the next ones start from there. -/
theorem run_append (s : Session) {before : List String}
    (h : ∀ typed ∈ before, ends (Text.trim typed) = false) (after : List String) :
    (s.run before).1.length = before.length ∧
      s.run (before ++ after) = ((s.run before).1 ++ ((s.run before).2.run after).1,
        ((s.run before).2.run after).2) := by
  induction before generalizing s with
  | nil => exact ⟨rfl, rfl⟩
  | cons typed before ih =>
    rw [List.forall_mem_cons] at h
    obtain ⟨reply, s', hturn⟩ := s.exists_turn h.1
    obtain ⟨hlength, hrun⟩ := ih s' h.2
    rw [List.cons_append, run_cons_of_turn hturn, run_cons_of_turn hturn, hrun]
    exact ⟨congrArg (· + 1) hlength, rfl⟩

end Session

/-- A transcript shows the replies of a session, after one prompt each. -/
theorem Transcript.ofLines_eq (s : Session) {lines : List (List UInt8)} {typed : List String}
    (h : lines.map decodeLine = typed.map some) :
    ofLines s lines = (s.run typed).1.foldr after ⟨prompt, "", true⟩ := by
  induction lines generalizing s typed with
  | nil =>
    obtain rfl : typed = [] := List.map_eq_nil_iff.mp h.symm
    rfl
  | cons line lines ih =>
    obtain ⟨first, typed, rfl, hfirst, hrest⟩ := List.map_eq_cons_iff.mp h.symm
    rw [ofLines, ← hfirst]
    dsimp only
    cases hturn : s.turn first with
    | none => rw [Session.run_cons_of_ends hturn]; rfl
    | some done =>
      rw [Session.run_cons_of_turn hturn, List.foldr_cons, ← ih done.2 hrest.symm]

namespace Session

/-! ## Sessions that reply alike -/

/-- Whether two sessions differ at most in the order of their bindings and in their logs. -/
structure Like (s t : Session) : Prop where
  env : s.env.Same t.env
  openNodes : s.machine.openNodes = t.machine.openNodes
  source : s.machine.source = t.machine.source

namespace Like

variable {s t : Session}

theorem calculate (h : s.Like t) (source : String) :
    (s.calculate source).1 = (t.calculate source).1 ∧
      (s.calculate source).2.Like (t.calculate source).2 := by
  cases hcompile : compile s.env.limits source with
  | error cause =>
    rw [calculate_of_error hcompile, calculate_of_error (h.env.limits ▸ hcompile)]
    exact ⟨rfl, h.env, h.openNodes, h.source⟩
  | ok e =>
    rw [calculate_of_ok hcompile, calculate_of_ok (h.env.limits ▸ hcompile)]
    dsimp only
    rw [← h.env.evaluate, ← h.env.limits]
    generalize compileRecords s.env.limits source = records
    have hopenNodes : (s.machine.tell records).openNodes = (t.machine.tell records).openNodes :=
      h.openNodes
    have hsource : (s.machine.tell records).source = (t.machine.tell records).source := h.source
    obtain ⟨hresult, hsource⟩ := evaluate_congr (some s.env) e hopenNodes hsource
    have hopen := openNodes_evaluate (some s.env) e (s.machine.tell records)
    have hopen' := openNodes_evaluate (some s.env) e (t.machine.tell records)
    exact ⟨congrArg (answer source) hresult, h.env, hopen.trans (hopenNodes.trans hopen'.symm),
      hsource⟩

theorem bind (h : s.Like t) (name source : String) :
    (s.bind name source).1 = (t.bind name source).1 ∧
      (s.bind name source).2.Like (t.bind name source).2 := by
  cases hname : isVariableName name.toList with
  | false =>
    rw [bind_of_invalid hname, bind_of_invalid hname]
    exact ⟨rfl, h⟩
  | true =>
    cases hcompile : compile s.env.limits source with
    | error cause =>
      rw [bind_of_error hname hcompile, bind_of_error hname (h.env.limits ▸ hcompile)]
      exact ⟨rfl, h.env, h.openNodes, h.source⟩
    | ok e =>
      rw [bind_of_ok hname hcompile, bind_of_ok hname (h.env.limits ▸ hcompile)]
      exact ⟨rfl, h.env.bind name e, h.openNodes, h.source⟩

theorem execute (h : s.Like t) (line : String) :
    (s.execute line).1 = (t.execute line).1 ∧ (s.execute line).2.Like (t.execute line).2 := by
  rw [Session.execute, Session.execute]
  cases line.toList.dropWhile (· != '=') with
  | nil => exact h.calculate line
  | cons _ source => exact h.bind _ _

/-- Either line ends both sessions, or both give the same reply to it. -/
theorem turn (h : s.Like t) (typed : String) :
    (s.turn typed = none ∧ t.turn typed = none) ∨
      ∃ reply s' t', s.turn typed = some (reply, s') ∧ t.turn typed = some (reply, t') ∧
        s'.Like t' := by
  rw [Session.turn, Session.turn]
  dsimp only
  by_cases hends : ends (Text.trim typed) = true
  · exact .inl (by simp only [hends, if_true, and_self])
  · by_cases hempty : (Text.trim typed).isEmpty = true
    · exact .inr ⟨none, s, t, by simp only [hends, hempty, if_true]; rfl,
        by simp only [hends, hempty, if_true]; rfl, h⟩
    · obtain ⟨hreply, hlike⟩ := h.execute (Text.trim typed)
      rw [if_neg hends, if_neg hends, if_neg hempty, if_neg hempty, hreply]
      exact .inr ⟨_, _, _, rfl, rfl, hlike⟩

theorem run (h : s.Like t) (lines : List String) :
    (s.run lines).1 = (t.run lines).1 ∧ (s.run lines).2.Like (t.run lines).2 := by
  induction lines generalizing s t with
  | nil => exact ⟨rfl, h⟩
  | cons typed rest ih =>
    rcases h.turn typed with ⟨hs, ht⟩ | ⟨reply, s', t', hs, ht, hlike⟩
    · rw [run_cons_of_ends hs, run_cons_of_ends ht]
      exact ⟨rfl, h⟩
    · obtain ⟨hreplies, hlast⟩ := ih hlike
      rw [run_cons_of_turn hs, run_cons_of_turn ht, hreplies]
      exact ⟨rfl, hlast⟩

end Like

end Session

end Reckon
