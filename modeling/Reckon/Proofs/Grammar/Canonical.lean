import Reckon.Proofs.Decimal.Rounding
import Reckon.Proofs.Number.Bits
import Reckon.Proofs.Written.Normal

/-!
# The canonical form of expressions

Of all expressions there are, compiling gives only those in canonical form (`canonical_of_compile`):
sums of operands and products, products of operands, chains of `^` and divisions by one of these,
and numbers that need no sign of their own. In canonical form a chain of `^` is no division.
-/

namespace Reckon

namespace Expr

/-! ## Canonical expressions -/

mutual

/-- Operands: numbers without a sign bit, variables, calls of an operand and sums, each of them with
any sign before it. -/
inductive CanonicalOperand : Expr → Prop where
  | literal {x : Float} {sign : Sign} (hnan : x.isNaN = false)
      (hsign : Decimal.signBit x = false) : CanonicalOperand (literal x sign)
  | var {name : String} {sign : Sign} (h : IsName Char.isLower name) :
      CanonicalOperand (var name sign)
  | call {function : String} {argument : Expr} {sign : Sign} (h : IsName Char.isUpper function)
      (hargument : CanonicalOperand argument) : CanonicalOperand (call function argument sign)
  | sum {terms : List Expr} {sign : Sign} (h : ∀ e, e ∈ terms → CanonicalTerm e) :
      CanonicalOperand (sum terms sign)

/-- Bases: operands, and chains of `^` over at least two of them. -/
inductive CanonicalBase : Expr → Prop where
  | operand {e : Expr} (h : CanonicalOperand e) : CanonicalBase e
  | chain {base exponent : Expr} {rest : List Expr} (hbase : CanonicalOperand base)
      (hexponent : CanonicalOperand exponent) (hrest : ∀ e, e ∈ rest → CanonicalOperand e) :
      CanonicalBase (power (base :: exponent :: rest) .positive)

/-- Factors: bases, and the inverses of bases for divisions. -/
inductive CanonicalFactor : Expr → Prop where
  | base {e : Expr} (h : CanonicalBase e) : CanonicalFactor e
  | inverse {e : Expr} (h : CanonicalBase e) : CanonicalFactor e.inverse

/-- Terms: operands, products of a single chain of `^`, and products of a base and at least one
factor more. -/
inductive CanonicalTerm : Expr → Prop where
  | operand {e : Expr} (h : CanonicalOperand e) : CanonicalTerm e
  | chain {operands : List Expr} (h : CanonicalBase (power operands .positive)) :
      CanonicalTerm (product [power operands .positive] .positive)
  | product {first second : Expr} {rest : List Expr} (hfirst : CanonicalBase first)
      (hsecond : CanonicalFactor second) (hrest : ∀ e, e ∈ rest → CanonicalFactor e) :
      CanonicalTerm (product (first :: second :: rest) .positive)

end

/-- Whether an expression has the form of a line: a sum without a sign whose terms are canonical. -/
def Canonical (e : Expr) : Prop := ∃ terms, e = sum terms .positive ∧ ∀ t ∈ terms, CanonicalTerm t

/-- A base is no division, as the exponent of a division is a number with a sign bit. -/
theorem CanonicalBase.ne_inverse {e : Expr} (h : CanonicalBase e) (e' : Expr) : e ≠ e'.inverse := by
  rintro rfl
  cases h with
  | operand h => cases h
  | chain _ hexponent _ =>
    cases hexponent with
    | literal _ hsign =>
      revert hsign
      decide

end Expr

/-! ## Numbers without a sign -/

namespace Decimal

/-- A numeral is read as a number, without a sign. -/
theorem unsigned_of_readNumeral? {cs : List Char} {x : Float} (h : readNumeral? cs = some x) :
    x.isNaN = false ∧ signBit x = false := by
  obtain ⟨d, -, rfl⟩ := Option.map_eq_some_iff.mp h
  have hrank := nearestRank_le_infinity d
  exact ⟨isNaN_ofRank hrank, signBit_ofRank hrank⟩

end Decimal

namespace Token

/-- Whether a token, if it is a number, is one without a sign of its own. -/
def Unsigned (t : Token) : Prop :=
  ∀ x, t.kind = .number x → x.isNaN = false ∧ Decimal.signBit x = false

theorem unsigned_of_reads {word : List Char} {t : Token} (h : Reads word t.kind) : t.Unsigned := by
  intro x hx
  rw [hx] at h
  cases h with
  | number _ _ hread => exact Decimal.unsigned_of_readNumeral? hread
  | symbol hc =>
    unfold Kind.ofSymbol? at hc
    split at hc <;> simp only [Option.some.injEq, reduceCtorEq] at hc

/-- What the tokens of a line are: names of letters, and numbers without a sign. -/
def Plain (t : Token) : Prop := t.Named ∧ t.Unsigned

theorem plain_of_tokenize {line : String} {tokens : List Token} (h : tokenize line = .ok tokens) :
    ∀ t ∈ tokens, t.Plain := by
  intro t ht
  obtain ⟨word, -, hreads⟩ := exists_reads_of_tokenize h t ht
  exact ⟨named_of_reads hreads, unsigned_of_reads hreads⟩

end Token

/-! ## Derivations give canonical expressions -/

namespace Grammar

open Reckon.Expr (CanonicalOperand CanonicalBase CanonicalFactor CanonicalTerm)

mutual

theorem Operand.canonical {ts : List Token} (a : Operand ts) (h : ∀ t ∈ ts, t.Plain) :
    CanonicalOperand a.expr := by
  match a with
  | .number (t := t) value hk =>
    obtain ⟨hnan, hsign⟩ := (h t List.mem_cons_self).2 value hk
    exact .literal hnan hsign
  | .var (t := t) name hk =>
    have hname := (h t List.mem_cons_self).1
    rw [Token.Named, hk] at hname
    exact .var hname
  | .bracket ho level hc =>
    refine .sum (level.canonical fun t ht => h t ?_)
    exact List.mem_cons_of_mem _ (List.mem_append_left _ ht)
  | .call (f := f) name hk argument =>
    have hname := (h f List.mem_cons_self).1
    rw [Token.Named, hk] at hname
    exact .call hname (argument.canonical fun t ht => h t (List.mem_cons_of_mem _ ht))
termination_by structural a

theorem Exponents.canonical {ts : List Token} (a : Exponents ts) (h : ∀ t ∈ ts, t.Plain) :
    ∀ e ∈ a.exprs, CanonicalOperand e := by
  match a with
  | .nil => exact List.forall_mem_nil _
  | .cons hk exponent rest =>
    rw [List.forall_mem_cons, List.forall_mem_append] at h
    exact List.forall_mem_cons.mpr ⟨exponent.canonical h.2.1, rest.canonical h.2.2⟩
termination_by structural a

/-- A power is a base, and without further factors it is a term. -/
theorem Power.canonical {ts : List Token} (a : Power ts) (h : ∀ t ∈ ts, t.Plain) :
    CanonicalBase a.expr ∧ CanonicalTerm a.term := by
  match a with
  | .mk base .nil =>
    rw [List.forall_mem_append] at h
    have hbase := base.canonical h.1
    exact ⟨.operand hbase, .operand hbase⟩
  | .mk base (.cons hk exponent rest) =>
    rw [List.forall_mem_append, List.forall_mem_cons, List.forall_mem_append] at h
    obtain ⟨hbase, -, hexponent, hrest⟩ := h
    have hchain := CanonicalBase.chain (base.canonical hbase) (exponent.canonical hexponent)
      (rest.canonical hrest)
    exact ⟨hchain, .chain hchain⟩
termination_by structural a

theorem Factor.canonical {ts : List Token} (a : Factor ts) (h : ∀ t ∈ ts, t.Plain) :
    CanonicalFactor a.expr := by
  match a with
  | .times hk power => exact .base (power.canonical (List.forall_mem_cons.mp h).2).1
  | .divide hk power => exact .inverse (power.canonical (List.forall_mem_cons.mp h).2).1
  | .next hk power => exact .base (power.canonical h).1
termination_by structural a

theorem Factors.canonical {ts : List Token} (a : Factors ts) (h : ∀ t ∈ ts, t.Plain) :
    ∀ e ∈ a.exprs, CanonicalFactor e := by
  match a with
  | .nil => exact List.forall_mem_nil _
  | .cons factor rest =>
    rw [List.forall_mem_append] at h
    exact List.forall_mem_cons.mpr ⟨factor.canonical h.1, rest.canonical h.2⟩
termination_by structural a

theorem Term.canonical {ts : List Token} (a : Term ts) (h : ∀ t ∈ ts, t.Plain) :
    CanonicalTerm a.expr := by
  match a with
  | .mk first factors =>
    rw [List.forall_mem_append] at h
    obtain ⟨hfirst, hterm⟩ := first.canonical h.1
    have hfactors := factors.canonical h.2
    rw [Term.expr]
    split
    · exact hterm
    · rename_i hexprs
      rw [hexprs, List.forall_mem_cons] at hfactors
      exact .product hfirst hfactors.1 hfactors.2
termination_by structural a

theorem Addends.canonical {ts : List Token} (a : Addends ts) (h : ∀ t ∈ ts, t.Plain) :
    ∀ e ∈ a.exprs, CanonicalTerm e := by
  match a with
  | .nil => exact List.forall_mem_nil _
  | .cons hk term rest =>
    rw [List.forall_mem_append] at h
    exact List.forall_mem_cons.mpr ⟨term.canonical h.1, rest.canonical h.2⟩
termination_by structural a

/-- The terms of a derivation over plain tokens are canonical. -/
theorem Sum.canonical {ts : List Token} (a : Sum ts) (h : ∀ t ∈ ts, t.Plain) :
    ∀ e ∈ a.exprs, CanonicalTerm e := by
  match a with
  | .empty => exact List.forall_mem_nil _
  | .terms first rest =>
    rw [List.forall_mem_append] at h
    exact List.forall_mem_cons.mpr ⟨first.canonical h.1, rest.canonical h.2⟩
termination_by structural a

end

end Grammar

/-- Compiling gives expressions in canonical form only, where no base is also a division. -/
theorem canonical_of_compile {limits : Limits} {line : String} {e : Expr}
    (h : compile limits line = .ok e) :
    e.Canonical ∧ ∀ base, Expr.CanonicalBase base → ∀ e', base ≠ Expr.inverse e' := by
  obtain ⟨tokens, htokens, d, rfl⟩ := exists_derivation_of_compile h
  have hterms := d.canonical (Token.plain_of_tokenize htokens)
  exact ⟨⟨d.exprs, rfl, hterms⟩, fun base hbase => hbase.ne_inverse⟩

/-- A chain of `^` that is divided by another one and multiplied with a sum. -/
theorem canonical_of_compile_quotient :
    ∃ e, e.text = "(2+((-Sin(0.5)^x)*((y^2)^-1)*(z)))" ∧
      compile .standard "2+-Sin.5^x/y^2(z)" = .ok e ∧ e.Canonical := by
  have hcompile : (compile .standard "2+-Sin.5^x/y^2(z)").toOption.map Expr.text =
      some "(2+((-Sin(0.5)^x)*((y^2)^-1)*(z)))" := by decide +kernel
  obtain ⟨e, he, htext⟩ := Option.map_eq_some_iff.mp hcompile
  have he := toOption_eq_some.mp he
  exact ⟨e, htext, he, (canonical_of_compile he).1⟩

end Reckon
