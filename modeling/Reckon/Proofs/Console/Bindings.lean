import Reckon.Proofs.Console.Run
import Reckon.Proofs.Eval.Faults
import Reckon.Proofs.Written.Normal

/-!
# Bindings in a session

A line binds a name or it leaves the environment of its session as it is (`Session.Effect`). So all
that a line does to the lines after it is what it binds: the other lines may be left out, and
bindings of different names may change places (`Session.OnlyBindingsMatter`). What is bound is
always well-formed (`Session.Sound`), so no line fails for a power without operands or for want of
an environment.
-/

namespace Reckon

namespace Session

/-! ## What a line does -/

/-- Whether a line binds a name to an expression: the name stands before the first `=`, and what
stands behind it compiles to the expression. -/
def Binds (limits : Limits) (typed name : String) (e : Expr) : Prop :=
  ∃ left right, (Text.trim typed).toList = left ++ '=' :: right ∧ '=' ∉ left ∧
    name = String.ofList (Text.trimChars left) ∧ isVariableName name.toList = true ∧
    compile limits (String.ofList (Text.trimChars right)) = .ok e

/-- What a line may do: the reply, and the session after it. -/
inductive Effect (s : Session) (typed : String) : Option Reply → Session → Prop where
  | blank : Effect s typed none s
  | bound {name : String} {e : Expr} (h : Binds s.env.limits typed name e)
      (records : List Record) :
      Effect s typed (some (.bound name e)) ⟨s.env.bind name e, s.machine.tell records⟩
  | invalidName (name : String) : Effect s typed (some (.invalidName name)) s
  | rejected {source : String} {cause : Error} (h : compile s.env.limits source = .error cause)
      (records : List Record) :
      Effect s typed (some (.failed source cause)) ⟨s.env, s.machine.tell records⟩
  | evaluated {e : Expr} (h : compile s.env.limits (Text.trim typed) = .ok e)
      (records : List Record) :
      Effect s typed
        (some (answer (Text.trim typed) (evaluate (some s.env) e (s.machine.tell records)).1))
        ⟨s.env, (evaluate (some s.env) e (s.machine.tell records)).2⟩

variable {s s' : Session} {typed name : String} {e : Expr} {reply : Option Reply} {limits : Limits}

/-- Characters before and behind the first `=`. -/
theorem eq_of_dropWhile {line right : List Char} {c : Char}
    (h : line.dropWhile (· != '=') = c :: right) :
    line = line.takeWhile (· != '=') ++ '=' :: right ∧ '=' ∉ line.takeWhile (· != '=') := by
  obtain rfl : c = '=' := by
    have hhead := List.head_dropWhile_not (· != '=') (l := line) (by rw [h]; exact nofun)
    simpa only [h, List.head_cons, bne_eq_false_iff_eq] using hhead
  refine ⟨?_, fun hmem => ?_⟩
  · rw [← h, List.takeWhile_append_dropWhile]
  · have := List.mem_takeWhile_imp hmem
    contradiction

/-- Where a line is cut at its first `=`. -/
theorem cut_append_equals {left : List Char} (right : List Char) (h : '=' ∉ left) :
    (left ++ '=' :: right).takeWhile (· != '=') = left ∧
      (left ++ '=' :: right).dropWhile (· != '=') = '=' :: right := by
  have hbefore : ∀ c ∈ left, (c != '=') = true := by
    intro c hc
    exact bne_iff_ne.mpr fun heq => h (heq ▸ hc)
  rw [List.takeWhile_append_of_pos hbefore, List.dropWhile_append_of_pos hbefore]
  simp

theorem effect_execute (s : Session) (typed : String) :
    s.Effect typed (some (s.execute (Text.trim typed)).1) (s.execute (Text.trim typed)).2 := by
  rw [execute]
  cases hright : (Text.trim typed).toList.dropWhile (· != '=') with
  | nil =>
    cases hcompile : compile s.env.limits (Text.trim typed) with
    | ok e =>
      rw [calculate_of_ok hcompile]
      exact .evaluated hcompile _
    | error cause =>
      rw [calculate_of_error hcompile]
      exact .rejected hcompile _
  | cons c right =>
    dsimp only
    generalize hleft : (Text.trim typed).toList.takeWhile (· != '=') = left
    cases hname : isVariableName (String.ofList (Text.trimChars left)).toList with
    | false =>
      rw [bind_of_invalid hname]
      exact .invalidName _
    | true =>
      cases hcompile : compile s.env.limits (String.ofList (Text.trimChars right)) with
      | error cause =>
        rw [bind_of_error hname hcompile]
        exact .rejected hcompile _
      | ok e =>
        rw [bind_of_ok hname hcompile]
        obtain ⟨hsplit, hfirst⟩ := eq_of_dropWhile hright
        rw [hleft] at hsplit hfirst
        exact .bound ⟨left, right, hsplit, hfirst, rfl, hname, hcompile⟩ _

theorem effect_of_turn (h : s.turn typed = some (reply, s')) : s.Effect typed reply s' := by
  rw [turn] at h
  dsimp only at h
  split at h
  · contradiction
  · split at h
    · obtain ⟨rfl, rfl⟩ := Prod.mk.inj (Option.some.inj h)
      exact .blank
    · obtain ⟨rfl, rfl⟩ := Prod.mk.inj (Option.some.inj h)
      exact s.effect_execute typed

/-- A binding is accepted in every session with the same limits. -/
theorem turn_of_binds (h : Binds s.env.limits typed name e) :
    ∃ records, s.turn typed =
      some (some (.bound name e), ⟨s.env.bind name e, s.machine.tell records⟩) := by
  obtain ⟨left, right, hline, hleft, rfl, hname, hcompile⟩ := h
  have hmem : '=' ∈ (Text.trim typed).toList := by rw [hline]; simp
  have hends : ends (Text.trim typed) = false := by
    rw [Bool.eq_false_iff]
    intro hends
    rcases Bool.or_eq_true_iff.mp hends with heq | heq
    all_goals
      rw [beq_iff_eq.mp heq] at hmem
      revert hmem
      decide
  have hempty : (Text.trim typed).isEmpty = false := by
    rw [Bool.eq_false_iff]
    intro hempty
    rw [String.isEmpty_iff.mp hempty] at hmem
    revert hmem
    decide
  refine ⟨compileRecords s.env.limits (String.ofList (Text.trimChars right)), ?_⟩
  obtain ⟨hfront, hback⟩ := cut_append_equals right hleft
  rw [turn, hends, hempty, execute, hline, hfront, hback]
  simp only [Bool.false_eq_true, if_false]
  rw [bind_of_ok hname hcompile]

/-- A line that binds nothing leaves the environment as it is. -/
theorem env_of_turn (hturn : s.turn typed = some (reply, s'))
    (h : ∀ name e, ¬Binds s.env.limits typed name e) : s'.env = s.env := by
  cases effect_of_turn hturn with
  | bound hbinds _ => exact absurd hbinds (h _ _)
  | blank => rfl
  | invalidName _ => rfl
  | rejected _ _ => rfl
  | evaluated _ _ => rfl

/-- A line that binds nothing and draws no random numbers leaves behind nothing but records. -/
theorem like_of_turn (hturn : s.turn typed = some (reply, s'))
    (h : ∀ name e, ¬Binds s.env.limits typed name e)
    (hbuiltins : s.env.function? = (Env.builtins limits).function?)
    (hrand : ∀ e argument sign, compile s.env.limits (Text.trim typed) = .ok e →
      ¬s.env.Reaches e (.call "Rand" argument sign)) : s'.Like s := by
  cases effect_of_turn hturn with
  | bound hbinds _ => exact absurd hbinds (h _ _)
  | blank => exact ⟨.refl _, rfl, rfl⟩
  | invalidName _ => exact ⟨.refl _, rfl, rfl⟩
  | rejected _ _ => exact ⟨.refl _, rfl, rfl⟩
  | evaluated hcompile _ =>
    have hfunctions := EnvOf.hasFunctions_builtins hbuiltins fun argument sign =>
      hrand _ argument sign hcompile
    exact ⟨.refl _, openNodes_evaluate _ _ _, source_evaluate hfunctions _⟩

/-- The lines after one that binds nothing do the same without it. -/
theorem run_cons_of_not_binds (hends : ends (Text.trim typed) = false)
    (h : ∀ name e, ¬Binds s.env.limits typed name e)
    (hbuiltins : s.env.function? = (Env.builtins limits).function?)
    (hrand : ∀ e argument sign, compile s.env.limits (Text.trim typed) = .ok e →
      ¬s.env.Reaches e (.call "Rand" argument sign)) (rest : List String) :
    ∃ reply, (s.run (typed :: rest)).1 = reply :: (s.run rest).1 ∧
      (s.run (typed :: rest)).2.Like (s.run rest).2 := by
  obtain ⟨reply, s', hturn⟩ := s.exists_turn hends
  obtain ⟨hreplies, hlast⟩ := (like_of_turn hturn h hbuiltins hrand).run rest
  rw [run_cons_of_turn hturn, hreplies]
  exact ⟨reply, rfl, hlast⟩

/-- The lines after two bindings of different names do the same when these change places. -/
theorem run_swap {other name' : String} {e' : Expr} (h : Binds s.env.limits typed name e)
    (h' : Binds s.env.limits other name' e') (hne : name ≠ name') (rest : List String) :
    ∃ replies, (s.run (typed :: other :: rest)).1 =
        some (.bound name e) :: some (.bound name' e') :: replies ∧
      (s.run (other :: typed :: rest)).1 =
        some (.bound name' e') :: some (.bound name e) :: replies ∧
      (s.run (typed :: other :: rest)).2.Like (s.run (other :: typed :: rest)).2 := by
  obtain ⟨records, hfirst⟩ := turn_of_binds h
  obtain ⟨records', hfirst'⟩ := turn_of_binds h'
  -- a binding compiles under the limits only, so the one does not see the other
  obtain ⟨more, hsecond⟩ := turn_of_binds
    (s := ⟨s.env.bind name e, s.machine.tell records⟩) h'
  obtain ⟨more', hsecond'⟩ := turn_of_binds
    (s := ⟨s.env.bind name' e', s.machine.tell records'⟩) h
  rw [run_cons_of_turn hfirst, run_cons_of_turn hsecond, run_cons_of_turn hfirst',
    run_cons_of_turn hsecond']
  have hlike : Like
      ⟨(s.env.bind name e).bind name' e', (s.machine.tell records).tell more⟩
      ⟨(s.env.bind name' e').bind name e, (s.machine.tell records').tell more'⟩ :=
    ⟨.bind_bind s.env hne e e', rfl, rfl⟩
  obtain ⟨hreplies, hlast⟩ := hlike.run rest
  dsimp only
  rw [hreplies]
  exact ⟨_, rfl, rfl, hlast⟩

end Session

/-! ## What is bound is well-formed -/

theorem Expr.AllWellFormed.of_mem {es : List Expr} (h : AllWellFormed es) {e : Expr}
    (he : e ∈ es) : e.WellFormed := by
  induction es with
  | nil => contradiction
  | cons first rest ih =>
    rcases List.mem_cons.mp he with rfl | he
    · exact h.1
    · exact ih h.2 he

theorem Expr.WellFormed.child {e e' : Expr} (h : e.WellFormed) (he : e' ∈ e.children) :
    e'.WellFormed := by
  cases e with
  | literal x sign => contradiction
  | var name sign => contradiction
  | call function argument sign => exact List.mem_singleton.mp he ▸ h.2
  | sum terms sign => exact AllWellFormed.of_mem h he
  | product factors sign => exact h.2.of_mem he
  | power operands sign => exact h.2.2.of_mem he

/-- What a well-formed expression reaches is well-formed if all that is bound is. -/
theorem EnvOf.Reaches.wellFormed {env : Env} {e e' : Expr} (h : env.Reaches e e')
    (hbound : ∀ name e, env.lookup? name = some e → e.WellFormed) (he : e.WellFormed) :
    e'.WellFormed :=
  h.of_closed (fun _ he _ hchild => he.child hchild)
    (fun name _ e _ hname => hbound name e hname) he

namespace Session

/-- What holds of every session that starts with the built-in environment. -/
structure Sound (limits : Limits) (s : Session) : Prop where
  limits_eq : s.env.limits = limits
  function_eq : s.env.function? = (Env.builtins limits).function?
  wellFormed (name : String) (e : Expr) (h : s.env.lookup? name = some e) : e.WellFormed

namespace Sound

variable {limits : Limits} {s s' : Session} {typed : String} {reply : Option Reply}

theorem start (limits : Limits) (source : Source) : (start limits source).Sound limits where
  limits_eq := rfl
  function_eq := rfl
  wellFormed name e h := by
    obtain ⟨x, rfl⟩ := EnvOf.lookup?_builtins h
    trivial

theorem bind (h : s.Sound limits) {e : Expr} (he : e.WellFormed) (name : String)
    (machine : Machine) : Sound limits ⟨s.env.bind name e, machine⟩ where
  limits_eq := h.limits_eq
  function_eq := h.function_eq
  wellFormed other e' hother := by
    rw [EnvOf.lookup?_bind] at hother
    split at hother
    · exact Option.some.inj hother ▸ he
    · exact h.wellFormed other e' hother

theorem turn (h : s.Sound limits) (hturn : s.turn typed = some (reply, s')) :
    s'.Sound limits := by
  cases effect_of_turn hturn with
  | blank => exact h
  | bound hbinds _ =>
    obtain ⟨_, _, _, _, _, _, hcompile⟩ := hbinds
    exact h.bind (wellFormed_of_compile hcompile) _ _
  | invalidName _ => exact h
  | rejected _ _ => exact ⟨h.limits_eq, h.function_eq, h.wellFormed⟩
  | evaluated _ _ => exact ⟨h.limits_eq, h.function_eq, h.wellFormed⟩

theorem run (h : s.Sound limits) (lines : List String) : (s.run lines).2.Sound limits := by
  induction lines generalizing s with
  | nil => exact h
  | cons typed rest ih =>
    cases hturn : s.turn typed with
    | none => rw [run_cons_of_ends hturn]; exact h
    | some done =>
      rw [run_cons_of_turn hturn]
      exact ih (h.turn hturn)

/-- Each reply of a session is given in a sound state of it. -/
theorem exists_turn_of_mem (h : s.Sound limits) {lines : List String}
    (hreply : reply ∈ (s.run lines).1) :
    ∃ (t t' : Session) (typed : String), t.Sound limits ∧ t.turn typed = some (reply, t') := by
  induction lines generalizing s with
  | nil => contradiction
  | cons typed rest ih =>
    cases hturn : s.turn typed with
    | none => rw [run_cons_of_ends hturn] at hreply; contradiction
    | some done =>
      rw [run_cons_of_turn hturn] at hreply
      rcases List.mem_cons.mp hreply with rfl | hreply
      · exact ⟨s, done.2, typed, h, hturn⟩
      · exact ih (h.turn hturn) hreply

end Sound

end Session

theorem compile_ne_eval {limits : Limits} {line : String} {cause : EvalError} :
    compile limits line ≠ .error (.eval cause) := by
  rw [compile]
  cases tokenize line with
  | error cause => exact nofun
  | ok tokens =>
    change ((Tree.ofTokens limits tokens).mapError Error.group >>= _) ≠ _
    cases Tree.ofTokens limits tokens with
    | error cause => exact nofun
    | ok tree =>
      change (Expr.ofTree limits tree).mapError Error.parse ≠ _
      cases Expr.ofTree limits tree <;> exact nofun

namespace Session.Sound

variable {limits : Limits} {s s' : Session} {typed source : String} {cause : EvalError}

/-- When a session reports that an expression has no value, the line has compiled to a well-formed
expression with the fault that is reported. -/
theorem hasFault_of_turn (h : s.Sound limits)
    (hturn : s.turn typed = some (some (.failed source (.eval cause)), s')) :
    ∃ nodes e, compile limits (Text.trim typed) = .ok e ∧ s.env.HasFault nodes e cause := by
  generalize hreply : some (Reply.failed source (.eval cause)) = reply at hturn
  cases effect_of_turn hturn with
  | blank => cases hreply
  | bound _ _ => cases hreply
  | invalidName _ => cases hreply
  | rejected hcompile _ =>
    obtain ⟨rfl, rfl⟩ := Reply.failed.inj (Option.some.inj hreply)
    exact absurd hcompile compile_ne_eval
  | @evaluated e hcompile records =>
    cases hresult : (evaluate (some s.env) e (s.machine.tell records)).1 with
    | ok x => rw [hresult] at hreply; cases hreply
    | error cause' =>
      rw [hresult] at hreply
      obtain ⟨-, hcause⟩ := Reply.failed.inj (Option.some.inj hreply)
      obtain rfl := Error.eval.inj hcause
      exact ⟨_, e, h.limits_eq ▸ hcompile,
        hasFault_of_evaluate (EnvOf.callsStrict_builtins h.function_eq e) hresult⟩

/-- No line fails for a power with too few operands or because an environment is missing. -/
theorem turn_ne_internal (h : s.Sound limits)
    (hturn : s.turn typed = some (some (.failed source (.eval cause)), s')) :
    (∀ count, cause ≠ .malformedPower count) ∧ ∀ name, cause ≠ .contextRequired name := by
  obtain ⟨nodes, e, hcompile, hfault⟩ := h.hasFault_of_turn hturn
  refine ⟨?_, ?_⟩
  · rintro count rfl
    obtain ⟨operands, sign, hreach, hcount, hfew⟩ := hfault
    obtain ⟨-, hmany, -⟩ := hreach.wellFormed h.wellFormed (wellFormed_of_compile hcompile)
    omega
  · rintro name rfl
    exact hfault

end Session.Sound

/-! ## Only accepted bindings matter -/

namespace Session

/-- What the lines that come after the lines `before` do to a session and to each other. -/
structure OnlyBindingsMatter (limits : Limits) (start : Session) (before : List String) : Prop where
  /-- A line that is no accepted binding leaves the environment exactly as it is. -/
  kept {typed : String} {reply : Option Reply} {s' : Session}
    (hturn : (start.run before).2.turn typed = some (reply, s'))
    (h : ∀ name e, ¬Binds limits typed name e) : s'.env = (start.run before).2.env
  /-- An accepted binding changes what its name is bound to, and nothing else. -/
  changed {typed name : String} {e : Expr} (h : Binds limits typed name e) :
    ∃ s', (start.run before).2.turn typed = some (some (.bound name e), s') ∧
      s'.env = (start.run before).2.env.bind name e ∧ s'.env.lookup? name = some e ∧
      ∀ other, other ≠ name → s'.env.lookup? other = (start.run before).2.env.lookup? other
  /-- A line that is no accepted binding can be left out: all other replies stay, and the last
  environment. -/
  omitted {typed : String} (hends : ends (Text.trim typed) = false)
    (h : ∀ name e, ¬Binds limits typed name e)
    (hrand : ∀ e argument sign, compile limits (Text.trim typed) = .ok e →
      ¬(start.run before).2.env.Reaches e (.call "Rand" argument sign)) (after : List String) :
    ∃ first reply last, first.length = before.length ∧
      (start.run (before ++ typed :: after)).1 = first ++ reply :: last ∧
      (start.run (before ++ after)).1 = first ++ last ∧
      (start.run (before ++ typed :: after)).2.env.Same (start.run (before ++ after)).2.env
  /-- Two accepted bindings of different names can change places: all other replies stay, and the
  last environment. -/
  swapped {typed other name name' : String} {e e' : Expr} (h : Binds limits typed name e)
    (h' : Binds limits other name' e') (hne : name ≠ name') (after : List String) :
    ∃ first last, first.length = before.length ∧
      (start.run (before ++ typed :: other :: after)).1 =
        first ++ some (.bound name e) :: some (.bound name' e') :: last ∧
      (start.run (before ++ other :: typed :: after)).1 =
        first ++ some (.bound name' e') :: some (.bound name e) :: last ∧
      (start.run (before ++ typed :: other :: after)).2.env.Same
        (start.run (before ++ other :: typed :: after)).2.env
  /-- No line fails for a power with too few operands or because an environment is missing. -/
  reported {after : List String} {source : String} {cause : EvalError}
    (h : some (.failed source (.eval cause)) ∈ (start.run (before ++ after)).1) :
    (∀ count, cause ≠ .malformedPower count) ∧ ∀ name, cause ≠ .contextRequired name

/-- In a session that starts with the built-in environment, the accepted bindings are all that
matters to the lines that come next. -/
theorem onlyBindingsMatter_start (limits : Limits) (source : Source) {before : List String}
    (hbefore : ∀ typed ∈ before, ends (Text.trim typed) = false) :
    OnlyBindingsMatter limits (start limits source) before := by
  have hstart := Sound.start limits source
  have hsound := hstart.run before
  have hlimits := hsound.limits_eq
  have hlength := ((start limits source).run_append hbefore []).1
  have hrun := fun after => ((start limits source).run_append hbefore after).2
  constructor
  case kept =>
    intro typed reply s' hturn h
    exact env_of_turn hturn (hlimits.symm ▸ h)
  case changed =>
    intro typed name e h
    obtain ⟨records, hturn⟩ := turn_of_binds (hlimits.symm ▸ h)
    refine ⟨_, hturn, rfl, ?_, fun other hne => ?_⟩
    · rw [EnvOf.lookup?_bind, if_pos rfl]
    · rw [EnvOf.lookup?_bind, if_neg hne]
  case omitted =>
    intro typed hends h hrand after
    obtain ⟨reply, hreplies, hlast⟩ := run_cons_of_not_binds hends (hlimits.symm ▸ h)
      hsound.function_eq (hlimits.symm ▸ hrand) after
    rw [hrun, hrun, hreplies]
    exact ⟨_, reply, _, hlength, rfl, rfl, hlast.env⟩
  case swapped =>
    intro typed other name name' e e' h h' hne after
    obtain ⟨last, hreplies, hreplies', hlast⟩ := run_swap (hlimits.symm ▸ h) (hlimits.symm ▸ h')
      hne after
    rw [hrun, hrun, hreplies, hreplies']
    exact ⟨_, last, hlength, rfl, rfl, hlast.env⟩
  case reported =>
    intro after source cause h
    obtain ⟨s, s', typed, hs, hturn⟩ := hstart.exists_turn_of_mem h
    exact hs.turn_ne_internal hturn

/-- Lines that bind a variable and a constant to themselves, and one that runs into the cycle. -/
theorem onlyBindingsMatter_after_cycle :
    let before := ["x = 2x", " pi=x+pi", "pi", "", "quit = 1"]
    (∀ typed ∈ before, ends (Text.trim typed) = false) ∧
      OnlyBindingsMatter ⟨4, 9⟩ (start ⟨4, 9⟩ ⟨0⟩) before := by
  intro before
  have hbefore : ∀ typed ∈ before, ends (Text.trim typed) = false := by decide +kernel
  exact ⟨hbefore, onlyBindingsMatter_start ⟨4, 9⟩ ⟨0⟩ hbefore⟩

end Session

end Reckon
