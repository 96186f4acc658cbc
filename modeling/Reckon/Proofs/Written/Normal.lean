import Mathlib
import Reckon.Expr.Basic
import Reckon.Proofs.Grammar.Compile
import Reckon.Proofs.Token.Lexemes

/-!
# Normal forms

Writing an expression puts brackets around all its sums, products, powers and arguments, and reading
it back keeps them: `Expr.normal` is the expression with these brackets. It is defined for every
expression, but not every one is written so that it can be read. Those that compiling gives are
(`wellFormed_of_compile`): their names are names of the language, their powers have two operands,
and only operands have signs (`Expr.WellFormed`).
-/

namespace Reckon

namespace Expr

/-- How a number without a sign is read back: without its sign if it is finite, and otherwise as the
division that it is written as. -/
def literalNormal (x : Float) : Expr :=
  if x.isNaN then
    sum [product [literal 0 .positive, inverse (literal 0 .positive)] .positive] .positive
  else if x.isInf then
    sum [product [literal 1 .positive, inverse (literal 0 .positive)] .positive]
      (if x < 0 then .negative else .positive)
  else literal x.abs (if Decimal.signBit x then .negative else .positive)

mutual

/-- An expression with the brackets that it is written with. -/
def normal : Expr → Expr
  | literal x sign => literalNormal (sign.apply x)
  | var name sign => var name sign
  | call function argument sign => call function (sum [argument.normal] .positive) sign
  | sum terms sign => sum (normals terms) sign
  | product [] sign => sum [literal 1 .positive] sign
  | product [e] sign => sum [e.normal] sign
  | product (e :: e' :: factors) sign =>
    sum [product (e.normal :: e'.normal :: normals factors) .positive] sign
  | power operands sign => sum [product [power (normals operands) .positive] .positive] sign
termination_by structural e => e

/-- Some expressions with the brackets that they are written with. -/
def normals : List Expr → List Expr
  | [] => []
  | e :: es => e.normal :: normals es
termination_by structural es => es

end

/-- Whether a name consists of letters, the first one of a given case. -/
def IsName (first : Char → Bool) (name : String) : Prop :=
  ∃ c rest, name.toList = c :: rest ∧ first c = true ∧ ∀ x ∈ rest, x.isAlpha = true

mutual

/-- Whether the names in an expression can be read, its powers have two operands at least, and none
of its products and powers has a sign. -/
def WellFormed : Expr → Prop
  | literal _ _ => True
  | var name _ => IsName Char.isLower name
  | call function argument _ => IsName Char.isUpper function ∧ argument.WellFormed
  | sum terms _ => AllWellFormed terms
  | product factors sign => sign = .positive ∧ AllWellFormed factors
  | power operands sign => sign = .positive ∧ 2 ≤ operands.length ∧ AllWellFormed operands
termination_by structural e => e

/-- Whether all of some expressions are well-formed. -/
def AllWellFormed : List Expr → Prop
  | [] => True
  | e :: es => e.WellFormed ∧ AllWellFormed es
termination_by structural es => es

end

theorem wellFormed_inverse {e : Expr} (h : e.WellFormed) : e.inverse.WellFormed :=
  ⟨rfl, Nat.le_refl 2, h, trivial, trivial⟩

end Expr

/-! ## Names in tokens -/

namespace Token

/-- Whether the name of a token, if it has one, consists of letters. -/
def Named (t : Token) : Prop :=
  match t.kind with
  | .var name => Expr.IsName Char.isLower name
  | .function name => Expr.IsName Char.isUpper name
  | _ => True

theorem named_of_reads {word : List Char} {t : Token} (h : Reads word t.kind) : t.Named := by
  rw [Named]
  generalize t.kind = k at h ⊢
  cases h with
  | function hc hrest => exact ⟨_, _, String.toList_ofList, hc, hrest⟩
  | var hc hrest => exact ⟨_, _, String.toList_ofList, hc, hrest⟩
  | number _ _ _ => trivial
  | symbol hk =>
    unfold Kind.ofSymbol? at hk
    split at hk <;> first | contradiction | (obtain rfl := Option.some.inj hk; trivial)

theorem named_of_tokenize {line : String} {tokens : List Token} (h : tokenize line = .ok tokens) :
    ∀ t ∈ tokens, t.Named := by
  intro t ht
  obtain ⟨word, -, hreads⟩ := exists_reads_of_tokenize h t ht
  exact named_of_reads hreads

end Token

/-! ## What compiling gives is well-formed -/

namespace Grammar

open Reckon.Expr (WellFormed AllWellFormed)

mutual

theorem Operand.wellFormed {ts : List Token} (a : Operand ts) (h : ∀ t ∈ ts, t.Named) :
    a.expr.WellFormed := by
  match a with
  | .number value hk => trivial
  | .var (t := t) name hk =>
    have := h t List.mem_cons_self
    rwa [Token.Named, hk] at this
  | .bracket ho level hc =>
    exact level.wellFormed fun t ht => h t (List.mem_cons_of_mem _ (List.mem_append_left _ ht))
  | .call (f := f) name hk argument =>
    have hf := h f List.mem_cons_self
    rw [Token.Named, hk] at hf
    exact ⟨hf, argument.wellFormed fun t ht => h t (List.mem_cons_of_mem _ ht)⟩
termination_by structural a

theorem Exponents.wellFormed {ts : List Token} (a : Exponents ts) (h : ∀ t ∈ ts, t.Named) :
    AllWellFormed a.exprs := by
  match a with
  | .nil => trivial
  | .cons hk exponent rest =>
    rw [List.forall_mem_cons, List.forall_mem_append] at h
    exact ⟨exponent.wellFormed h.2.1, rest.wellFormed h.2.2⟩
termination_by structural a

theorem Power.wellFormed {ts : List Token} (a : Power ts) (h : ∀ t ∈ ts, t.Named) :
    a.expr.WellFormed ∧ a.term.WellFormed := by
  match a with
  | .mk base .nil =>
    rw [List.forall_mem_append] at h
    exact ⟨base.wellFormed h.1, base.wellFormed h.1⟩
  | .mk base (.cons hk exponent rest) =>
    rw [List.forall_mem_append, List.forall_mem_cons, List.forall_mem_append] at h
    have hall : (Expr.power (base.expr :: exponent.expr :: rest.exprs) .positive).WellFormed :=
      ⟨rfl, Nat.le_add_left 2 _, base.wellFormed h.1, exponent.wellFormed h.2.2.1,
        rest.wellFormed h.2.2.2⟩
    exact ⟨hall, rfl, hall, trivial⟩
termination_by structural a

theorem Factor.wellFormed {ts : List Token} (a : Factor ts) (h : ∀ t ∈ ts, t.Named) :
    a.expr.WellFormed := by
  match a with
  | .times hk power => exact (power.wellFormed (List.forall_mem_cons.mp h).2).1
  | .divide hk power =>
    exact Expr.wellFormed_inverse (power.wellFormed (List.forall_mem_cons.mp h).2).1
  | .next hk power => exact (power.wellFormed h).1
termination_by structural a

theorem Factors.wellFormed {ts : List Token} (a : Factors ts) (h : ∀ t ∈ ts, t.Named) :
    AllWellFormed a.exprs := by
  match a with
  | .nil => trivial
  | .cons factor rest =>
    rw [List.forall_mem_append] at h
    exact ⟨factor.wellFormed h.1, rest.wellFormed h.2⟩
termination_by structural a

theorem Term.wellFormed {ts : List Token} (a : Term ts) (h : ∀ t ∈ ts, t.Named) :
    a.expr.WellFormed := by
  match a with
  | .mk first factors =>
    rw [List.forall_mem_append] at h
    have hfirst := first.wellFormed h.1
    have hfactors := factors.wellFormed h.2
    rw [Term.expr]
    split
    · exact hfirst.2
    · rename_i hexprs
      rw [hexprs] at hfactors
      exact ⟨rfl, hfirst.1, hfactors⟩
termination_by structural a

theorem Addends.wellFormed {ts : List Token} (a : Addends ts) (h : ∀ t ∈ ts, t.Named) :
    AllWellFormed a.exprs := by
  match a with
  | .nil => trivial
  | .cons hk term rest =>
    rw [List.forall_mem_append] at h
    exact ⟨term.wellFormed h.1, rest.wellFormed h.2⟩
termination_by structural a

/-- The expressions of a derivation over named tokens are well-formed. -/
theorem Sum.wellFormed {ts : List Token} (a : Sum ts) (h : ∀ t ∈ ts, t.Named) :
    AllWellFormed a.exprs := by
  match a with
  | .empty => trivial
  | .terms first rest =>
    rw [List.forall_mem_append] at h
    exact ⟨first.wellFormed h.1, rest.wellFormed h.2⟩
termination_by structural a

end

end Grammar

/-- Compiling gives well-formed expressions only. -/
theorem wellFormed_of_compile {limits : Limits} {line : String} {e : Expr}
    (h : compile limits line = .ok e) : e.WellFormed := by
  obtain ⟨tokens, htokens, d, rfl⟩ := exists_derivation_of_compile h
  exact d.wellFormed (Token.named_of_tokenize htokens)

end Reckon
