import Reckon.Proofs.Outcome
import Reckon.Token.Signs

/-!
# What is left of folded signs

`Marked before kinds tokens` says which tokens folding leaves of a row of plain tokens of the given
kinds that comes right after a token of kind `before`. Folding succeeds as soon as the row does not
end in a sign (`exists_marked`), and what it leaves falls apart where the row does.
-/

namespace Reckon.Token

/-- A token as it is scanned. -/
def IsPlain (t : Token) : Prop := t.sign = .positive ∧ t.explicitSign = false

/-- The tokens that folding leaves of plain tokens, whose kinds are given, after a token of kind
`before`. -/
inductive Marked : Option Kind → List Kind → List Token → Prop where
  | nil {before : Option Kind} : Marked before [] []
  | sign {before : Option Kind} {k : Kind} {ks : List Kind} {ts : List Token}
      (h : k.isSign = true) (rest : Marked (some k) ks ts) : Marked before (k :: ks) ts
  | token {before : Option Kind} {k : Kind} {ks : List Kind} {t : Token} {ts : List Token}
      (h : k.isSign = false) (hkind : t.kind = k)
      (hsign : t.sign = if before = some .minus then .negative else .positive)
      (hmark : t.explicitSign = before.any Kind.isSign) (rest : Marked (some k) ks ts) :
      Marked before (k :: ks) (t :: ts)

theorem sign_signedBy (t : Token) (before : Option Token) :
    (t.signedBy before).sign = if before.map kind = some .minus then .negative else t.sign := by
  unfold signedBy
  split
  · rename_i hplus
    simp [hplus]
  · rename_i hminus
    simp [hminus]
  · rename_i hminus
    rw [if_neg hminus]

theorem explicitSign_signedBy (t : Token) (before : Option Token) :
    (t.signedBy before).explicitSign =
      ((before.map kind).any Kind.isSign || t.explicitSign) := by
  unfold signedBy
  split
  · rename_i hplus
    rw [hplus]
    rfl
  · rename_i hminus
    rw [hminus]
    rfl
  · rename_i hplus hminus
    cases hbefore : before.map kind with
    | none => rfl
    | some k =>
      rw [hbefore] at hplus hminus
      cases k with
      | plus => contradiction
      | minus => contradiction
      | _ => rfl

/-- Folding the signs of plain tokens succeeds unless they end in a sign. -/
theorem exists_foldSignsAfter (before : Option Token) {tokens : List Token}
    (hplain : ∀ t ∈ tokens, t.IsPlain)
    (hlast : ∀ k ∈ ((tokens.map kind).getLast?.or (before.map kind)), k.isSign = false) :
    ∃ folded, foldSignsAfter before tokens = .ok folded ∧
      Marked (before.map kind) (tokens.map kind) folded := by
  induction tokens generalizing before with
  | nil =>
    refine ⟨[], ?_, .nil⟩
    cases before with
    | none => rfl
    | some t => rw [foldSignsAfter, if_neg (by simp [hlast t.kind])]
  | cons t rest ih =>
    have hrest : ∀ k ∈ (rest.map kind).getLast?.or ((some t).map kind), k.isSign = false := by
      intro k hk
      refine hlast k ?_
      rw [List.map_cons, List.getLast?_cons]
      cases hlast' : (rest.map kind).getLast? <;> simpa [hlast'] using hk
    have hothers := fun t ht => hplain t (List.mem_cons_of_mem _ ht)
    obtain ⟨folded, hfolded, hmarked⟩ := ih (some t) hothers hrest
    have ht := hplain t List.mem_cons_self
    rw [foldSignsAfter, hfolded]
    cases hsign : t.kind.isSign with
    | true => exact ⟨folded, by simp [bind, Except.bind, pure, Except.pure], .sign hsign hmarked⟩
    | false =>
      refine ⟨t.signedBy before :: folded, by simp [bind, Except.bind, pure, Except.pure], ?_⟩
      refine .token hsign (kind_signedBy before t) ?_ ?_ hmarked
      · rw [sign_signedBy, ht.1]
      · rw [explicitSign_signedBy, ht.2, Bool.or_false]

namespace Marked

variable {before : Option Kind} {k : Kind} {ks js : List Kind} {tokens : List Token}

/-- A sign in front marks what comes after it. -/
theorem of_sign (h : Marked before (k :: ks) tokens) (hk : k.isSign = true) :
    Marked (some k) ks tokens := by
  cases h with
  | sign _ rest => exact rest
  | token hk' => rw [hk] at hk'; contradiction

/-- Another token in front stays, with the sign and the mark that it gets from before. -/
theorem of_token (h : Marked before (k :: ks) tokens) (hk : k.isSign = false) :
    ∃ t ts, tokens = t :: ts ∧ t.kind = k ∧
      t.sign = (if before = some .minus then .negative else .positive) ∧
      t.explicitSign = before.any Kind.isSign ∧ Marked (some k) ks ts := by
  cases h with
  | sign hk' => rw [hk] at hk'; contradiction
  | token _ hkind hsign hmark rest => exact ⟨_, _, rfl, hkind, hsign, hmark, rest⟩

theorem eq_nil (h : Marked before [] tokens) : tokens = [] := by
  cases h
  rfl

/-- Marked tokens have the kinds of the row. -/
theorem kind_mem (h : Marked before ks tokens) {t : Token} (ht : t ∈ tokens) : t.kind ∈ ks := by
  induction h with
  | nil => contradiction
  | sign _ _ ih => exact List.mem_cons_of_mem _ (ih ht)
  | token _ hkind _ _ _ ih =>
    rcases List.mem_cons.mp ht with rfl | ht
    · exact hkind ▸ List.mem_cons_self
    · exact List.mem_cons_of_mem _ (ih ht)

/-- Marked tokens fall apart where their kinds do. -/
theorem of_append (h : Marked before (ks ++ js) tokens) :
    ∃ ts us before', tokens = ts ++ us ∧ Marked before ks ts ∧ Marked before' js us := by
  induction ks generalizing before tokens with
  | nil => exact ⟨[], tokens, before, rfl, .nil, h⟩
  | cons k ks ih =>
    cases h with
    | sign hk rest =>
      obtain ⟨ts, us, before', rfl, hts, hus⟩ := ih rest
      exact ⟨ts, us, before', rfl, .sign hk hts, hus⟩
    | token hk hkind hsign hmark rest =>
      obtain ⟨ts, us, before', rfl, hts, hus⟩ := ih rest
      exact ⟨_ :: ts, us, before', rfl, .token hk hkind hsign hmark hts, hus⟩

end Marked

end Reckon.Token
