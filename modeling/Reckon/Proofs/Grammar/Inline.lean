import Reckon.Proofs.Grammar.Trees

/-!
# Derivations with definitions in place of names

In the tokens of a line, brackets around the tokens of a definition may take the place of a variable
(`Token.Inlined`): an opening bracket passes on sign and mark like the variable did, so a derivation
goes through, and in its expression sums stand in place of variables (`Expr.inlined`).
-/

namespace Reckon

namespace Expr

/-! ## Sums in place of variables -/

mutual

/-- An expression with sums in place of some of its variables, each with the sign of the variable.
The sums themselves stay as they are. -/
def inlined (definition? : String → Option (List Expr)) : Expr → Expr
  | literal x sign => literal x sign
  | var name sign =>
    match definition? name with
    | some terms => sum terms sign
    | none => var name sign
  | call function argument sign => call function (argument.inlined definition?) sign
  | sum terms sign => sum (inlinedAll definition? terms) sign
  | product factors sign => product (inlinedAll definition? factors) sign
  | power operands sign => power (inlinedAll definition? operands) sign
termination_by structural e => e

/-- Some expressions with sums in place of some of their variables. -/
def inlinedAll (definition? : String → Option (List Expr)) : List Expr → List Expr
  | [] => []
  | e :: es => e.inlined definition? :: inlinedAll definition? es
termination_by structural es => es

end

/-- The definition of a single name. -/
def definitionOf (name : String) (terms : List Expr) : String → Option (List Expr) :=
  fun other => if other = name then some terms else none

variable {definition? : String → Option (List Expr)}

theorem definitionOf_eq_some {name other : String} {terms terms' : List Expr} :
    definitionOf name terms other = some terms' ↔ other = name ∧ terms = terms' := by
  rw [definitionOf]
  split
  · rename_i h
    exact ⟨fun heq => ⟨h, Option.some.inj heq⟩, fun heq => congrArg some heq.2⟩
  · rename_i h
    refine ⟨fun heq => ?_, fun heq => absurd heq.1 h⟩
    contradiction

theorem inlinedAll_eq_map (es : List Expr) :
    inlinedAll definition? es = es.map (inlined definition?) := by
  induction es with
  | nil => rfl
  | cons e es ih => rw [inlinedAll, ih, List.map_cons]

mutual

/-- Without definitions nothing is replaced. -/
theorem inlined_none (e : Expr) : e.inlined (fun _ => none) = e := by
  match e with
  | literal x sign | var name sign => rfl
  | call function argument sign => rw [inlined, inlined_none argument]
  | sum terms sign => rw [inlined, inlinedAll_none terms]
  | product factors sign => rw [inlined, inlinedAll_none factors]
  | power operands sign => rw [inlined, inlinedAll_none operands]
termination_by structural e

theorem inlinedAll_none (es : List Expr) : inlinedAll (fun _ => none) es = es := by
  match es with
  | [] => rfl
  | e :: es => rw [inlinedAll, inlined_none e, inlinedAll_none es]
termination_by structural es

end

theorem inlined_inverse (e : Expr) :
    e.inverse.inlined definition? = (e.inlined definition?).inverse := rfl

theorem inlined_tower (base : Expr) (exponents : List Expr) :
    (tower base exponents).inlined definition? =
      tower (base.inlined definition?) (inlinedAll definition? exponents) := by
  cases exponents <;> rfl

theorem inlined_term (base : Expr) (exponents factors : List Expr) :
    (term base exponents factors).inlined definition? =
      term (base.inlined definition?) (inlinedAll definition? exponents)
        (inlinedAll definition? factors) := by
  cases exponents <;> cases factors <;> rfl

end Expr

/-! ## Brackets in place of variables -/

/-- Tokens with brackets in place of some variables: an opening bracket with the sign and the mark
of the variable, tokens of a derivation of its definition and a closing bracket. All other tokens
stay, up to their places. -/
inductive Token.Inlined (definition? : String → Option (List Expr)) :
    List Token → List Token → Prop where
  | nil : Inlined definition? [] []
  | token {t t' : Token} {ts ts' : List Token} (hkind : t'.kind = t.kind) (hsign : t'.sign = t.sign)
      (hmark : t'.explicitSign = t.explicitSign)
      (hnone : ∀ name, t.kind = .var name → definition? name = none)
      (rest : Inlined definition? ts ts') : Inlined definition? (t :: ts) (t' :: ts')
  | definition {t o c : Token} {name : String} {terms : List Expr} {inner ts ts' : List Token}
      (ht : t.kind = .var name) (hterms : definition? name = some terms)
      (hopen : o.kind = .openBracket) (hsign : o.sign = t.sign)
      (hmark : o.explicitSign = t.explicitSign)
      (hlevel : ∃ level : Grammar.Sum inner, level.exprs = terms) (hclose : c.kind = .closeBracket)
      (rest : Inlined definition? ts ts') :
      Inlined definition? (t :: ts) (o :: (inner ++ c :: ts'))

namespace Token.Inlined

variable {definition? : String → Option (List Expr)} {t : Token} {ts us ts' : List Token}

theorem eq_nil (h : Inlined definition? [] ts') : ts' = [] := by
  cases h
  rfl

/-- A token that is no variable stays. -/
theorem of_token (h : Inlined definition? (t :: ts) ts') (ht : ∀ name, t.kind ≠ .var name) :
    ∃ t' rest, ts' = t' :: rest ∧ t'.kind = t.kind ∧ t'.sign = t.sign ∧
      t'.explicitSign = t.explicitSign ∧ Inlined definition? ts rest := by
  cases h with
  | token hkind hsign hmark _ rest => exact ⟨_, _, rfl, hkind, hsign, hmark, rest⟩
  | definition hvar => exact absurd hvar (ht _)

/-- What takes the place of tokens falls apart where these do. -/
theorem of_append (h : Inlined definition? (ts ++ us) ts') :
    ∃ vs ws, ts' = vs ++ ws ∧ Inlined definition? ts vs ∧ Inlined definition? us ws := by
  induction ts generalizing ts' with
  | nil => exact ⟨[], ts', rfl, .nil, h⟩
  | cons t ts ih =>
    cases h with
    | @token _ t' _ _ hkind hsign hmark hnone rest =>
      obtain ⟨vs, ws, rfl, hvs, hws⟩ := ih rest
      exact ⟨t' :: vs, ws, rfl, .token hkind hsign hmark hnone hvs, hws⟩
    | @definition _ o c _ _ inner _ _ ht hterms hopen hsign hmark hlevel hclose rest =>
      obtain ⟨vs, ws, rfl, hvs, hws⟩ := ih rest
      refine ⟨o :: (inner ++ c :: vs), ws, by simp, ?_, hws⟩
      exact .definition ht hterms hopen hsign hmark hlevel hclose hvs

theorem startsSigned_eq (h : Inlined definition? ts ts') :
    Grammar.startsSigned ts' = Grammar.startsSigned ts := by
  cases h with
  | nil => rfl
  | token _ _ hmark _ _ => exact hmark
  | definition _ _ _ _ hmark _ _ _ => exact hmark

end Token.Inlined

/-! ## Derivations go through -/

namespace Grammar

open Token (Inlined)
open Reckon.Expr (inlinedAll)

variable {definition? : String → Option (List Expr)}

mutual

theorem Operand.exists_inlined {ts ts' : List Token} (a : Operand ts)
    (h : Inlined definition? ts ts') :
    ∃ a' : Operand ts', a'.expr = a.expr.inlined definition? := by
  match a with
  | .number value hk =>
    obtain ⟨t', rest, rfl, hkind, hsign, -, hrest⟩ := h.of_token (by simp [hk])
    obtain rfl := hrest.eq_nil
    exact ⟨.number value (hkind.trans hk), by rw [Operand.expr, Operand.expr, Expr.inlined, hsign]⟩
  | .var (t := t) name hk =>
    cases h with
    | token hkind hsign _ hnone rest =>
      obtain rfl := rest.eq_nil
      refine ⟨.var name (hkind.trans hk), ?_⟩
      rw [Operand.expr, Operand.expr, Expr.inlined, hnone name hk, hsign]
    | definition hvar hterms hopen hsign _ hlevel hclose rest =>
      obtain rfl := rest.eq_nil
      obtain rfl := Token.Kind.var.inj (hk.symm.trans hvar)
      obtain ⟨level, rfl⟩ := hlevel
      refine ⟨.bracket hopen level hclose, ?_⟩
      rw [Operand.expr, Operand.expr, Expr.inlined, hterms, hsign]
  | .bracket ho level hc =>
    obtain ⟨o', rest, rfl, hkind, hsign, -, hrest⟩ := h.of_token (by simp [ho])
    obtain ⟨vs, ws, rfl, hvs, hws⟩ := hrest.of_append
    obtain ⟨c', last, rfl, hkind', -, -, hlast⟩ := hws.of_token (by simp [hc])
    obtain rfl := hlast.eq_nil
    obtain ⟨level', hlevel⟩ := level.exists_inlined hvs
    refine ⟨.bracket (hkind.trans ho) level' (hkind'.trans hc), ?_⟩
    rw [Operand.expr, Operand.expr, Expr.inlined, hlevel, hsign]
  | .call name hk argument =>
    obtain ⟨f', rest, rfl, hkind, hsign, -, hrest⟩ := h.of_token (by simp [hk])
    obtain ⟨argument', hargument⟩ := argument.exists_inlined hrest
    refine ⟨.call name (hkind.trans hk) argument', ?_⟩
    rw [Operand.expr, Operand.expr, Expr.inlined, hargument, hsign]
termination_by structural a

theorem Exponents.exists_inlined {ts ts' : List Token} (a : Exponents ts)
    (h : Inlined definition? ts ts') :
    ∃ a' : Exponents ts', a'.exprs = inlinedAll definition? a.exprs := by
  match a with
  | .nil =>
    obtain rfl := h.eq_nil
    exact ⟨.nil, rfl⟩
  | .cons hk exponent rest =>
    obtain ⟨t', behind, rfl, hkind, -, -, hbehind⟩ := h.of_token (by simp [hk])
    obtain ⟨vs, ws, rfl, hvs, hws⟩ := hbehind.of_append
    obtain ⟨exponent', hexponent⟩ := exponent.exists_inlined hvs
    obtain ⟨rest', hrest⟩ := rest.exists_inlined hws
    refine ⟨.cons (hkind.trans hk) exponent' rest', ?_⟩
    rw [Exponents.exprs, Exponents.exprs, inlinedAll, hexponent, hrest]
termination_by structural a

theorem Power.exists_inlined {ts ts' : List Token} (a : Power ts)
    (h : Inlined definition? ts ts') :
    ∃ a' : Power ts', a'.expr = a.expr.inlined definition? := by
  match a with
  | .mk base exponents =>
    obtain ⟨vs, ws, rfl, hvs, hws⟩ := h.of_append
    obtain ⟨base', hbase⟩ := base.exists_inlined hvs
    obtain ⟨exponents', hexponents⟩ := exponents.exists_inlined hws
    refine ⟨.mk base' exponents', ?_⟩
    rw [← tower_exprs, ← tower_exprs, Expr.inlined_tower, hbase, hexponents]
termination_by structural a

theorem Factor.exists_inlined {ts ts' : List Token} (a : Factor ts)
    (h : Inlined definition? ts ts') :
    ∃ a' : Factor ts', a'.expr = a.expr.inlined definition? := by
  match a with
  | .times hk power =>
    obtain ⟨t', behind, rfl, hkind, -, -, hbehind⟩ := h.of_token (by simp [hk])
    obtain ⟨power', hpower⟩ := power.exists_inlined hbehind
    exact ⟨.times (hkind.trans hk) power', hpower⟩
  | .divide hk power =>
    obtain ⟨t', behind, rfl, hkind, -, -, hbehind⟩ := h.of_token (by simp [hk])
    obtain ⟨power', hpower⟩ := power.exists_inlined hbehind
    refine ⟨.divide (hkind.trans hk) power', ?_⟩
    rw [Factor.expr, Factor.expr, hpower, Expr.inlined_inverse]
  | .next hk power =>
    obtain ⟨power', hpower⟩ := power.exists_inlined h
    exact ⟨.next (h.startsSigned_eq.trans hk) power', hpower⟩
termination_by structural a

theorem Factors.exists_inlined {ts ts' : List Token} (a : Factors ts)
    (h : Inlined definition? ts ts') :
    ∃ a' : Factors ts', a'.exprs = inlinedAll definition? a.exprs := by
  match a with
  | .nil =>
    obtain rfl := h.eq_nil
    exact ⟨.nil, rfl⟩
  | .cons factor rest =>
    obtain ⟨vs, ws, rfl, hvs, hws⟩ := h.of_append
    obtain ⟨factor', hfactor⟩ := factor.exists_inlined hvs
    obtain ⟨rest', hrest⟩ := rest.exists_inlined hws
    exact ⟨.cons factor' rest', by rw [Factors.exprs, Factors.exprs, inlinedAll, hfactor, hrest]⟩
termination_by structural a

theorem Term.exists_inlined {ts ts' : List Token} (a : Term ts) (h : Inlined definition? ts ts') :
    ∃ a' : Term ts', a'.expr = a.expr.inlined definition? := by
  match a with
  | .mk (.mk base exponents) factors =>
    obtain ⟨first, ws, rfl, hfirst, hws⟩ := h.of_append
    obtain ⟨us, vs, rfl, hus, hvs⟩ := hfirst.of_append
    obtain ⟨base', hbase⟩ := base.exists_inlined hus
    obtain ⟨exponents', hexponents⟩ := exponents.exists_inlined hvs
    obtain ⟨factors', hfactors⟩ := factors.exists_inlined hws
    refine ⟨.mk (.mk base' exponents') factors', ?_⟩
    rw [← term_exprs, ← term_exprs, Expr.inlined_term, hbase, hexponents, hfactors]
termination_by structural a

theorem Addends.exists_inlined {ts ts' : List Token} (a : Addends ts)
    (h : Inlined definition? ts ts') :
    ∃ a' : Addends ts', a'.exprs = inlinedAll definition? a.exprs := by
  match a with
  | .nil =>
    obtain rfl := h.eq_nil
    exact ⟨.nil, rfl⟩
  | .cons hk term rest =>
    obtain ⟨vs, ws, rfl, hvs, hws⟩ := h.of_append
    obtain ⟨term', hterm⟩ := term.exists_inlined hvs
    obtain ⟨rest', hrest⟩ := rest.exists_inlined hws
    refine ⟨.cons (hvs.startsSigned_eq.trans hk) term' rest', ?_⟩
    rw [Addends.exprs, Addends.exprs, inlinedAll, hterm, hrest]
termination_by structural a

/-- With definitions in place of variables, a derivation gives sums in place of variables. -/
theorem Sum.exists_inlined {ts ts' : List Token} (a : Sum ts) (h : Inlined definition? ts ts') :
    ∃ a' : Sum ts', a'.exprs = inlinedAll definition? a.exprs := by
  match a with
  | .empty =>
    obtain rfl := h.eq_nil
    exact ⟨.empty, rfl⟩
  | .terms first rest =>
    obtain ⟨vs, ws, rfl, hvs, hws⟩ := h.of_append
    obtain ⟨first', hfirst⟩ := first.exists_inlined hvs
    obtain ⟨rest', hrest⟩ := rest.exists_inlined hws
    exact ⟨.terms first' rest', by rw [Sum.exprs, Sum.exprs, inlinedAll, hfirst, hrest]⟩
termination_by structural a

end

end Grammar

end Reckon
