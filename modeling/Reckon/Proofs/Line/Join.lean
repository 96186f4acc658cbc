import Reckon.Proofs.Line.Lead
import Reckon.Proofs.Line.Signs

/-!
# Lines joined by a sign

A sign between two lines opens a new term, so the terms of the second line come after those of the
first. All that is seen of the sign is that a `-` makes the leftmost operand of the second line
negative (`compile_join`).
-/

namespace Reckon

/-! ## Kinds behind a sign -/

namespace Token.Marked

variable {ks : List Kind} {k : Kind} {us us' : List Token}

/-- The first token behind a sign is marked already. -/
theorem modifyHead_marked_id (h : Marked (some k) ks us) (hk : k.isSign = true) :
    us.modifyHead (marked id) = us := by
  induction ks generalizing k with
  | nil => rw [h.eq_nil]; rfl
  | cons j ks ih =>
    cases hj : j.isSign with
    | true => exact ih (h.of_sign hj) hj
    | false =>
      obtain ⟨t, ts, rfl, -, -, hmark, -⟩ := h.of_token hj
      have hmarked : t.marked id = t := by
        rw [Token.marked, id, ← hk, ← Option.any_some (p := Kind.isSign), ← hmark]
      rw [List.modifyHead_cons, hmarked]

theorem bare_eq_plus (h : Marked (some .plus) ks us') (h' : Marked none ks us) :
    us'.map bare = (us.modifyHead (marked id)).map bare := by
  cases ks with
  | nil => rw [h.eq_nil, h'.eq_nil]; rfl
  | cons j ks =>
    cases hj : j.isSign with
    | true =>
      rw [(h'.of_sign hj).modifyHead_marked_id hj]
      exact (h.of_sign hj).bare_eq (h'.of_sign hj)
    | false =>
      obtain ⟨t, ts, rfl, hkind, hsign, hmark, hrest⟩ := h.of_token hj
      obtain ⟨t', ts', rfl, hkind', hsign', -, hrest'⟩ := h'.of_token hj
      rw [List.modifyHead_cons, List.map_cons, List.map_cons, hrest.bare_eq hrest']
      exact congrArg (· :: _) (bare_congr (hkind.trans hkind'.symm) (hsign.trans hsign'.symm) hmark)

theorem bare_eq_minus (hks : ∀ k ∈ ks.head?, k.isSign = false) (h : Marked (some .minus) ks us')
    (h' : Marked none ks us) :
    us'.map bare = (us.modifyHead (marked fun _ => .negative)).map bare := by
  cases ks with
  | nil => rw [h.eq_nil, h'.eq_nil]; rfl
  | cons j ks =>
    have hj := hks j rfl
    obtain ⟨t, ts, rfl, hkind, hsign, hmark, hrest⟩ := h.of_token hj
    obtain ⟨t', ts', rfl, hkind', -, -, hrest'⟩ := h'.of_token hj
    rw [List.modifyHead_cons, List.map_cons, List.map_cons, hrest.bare_eq hrest']
    exact congrArg (· :: _) (bare_congr (hkind.trans hkind'.symm) hsign hmark)

/-- What comes after a row and a sign is marked by the sign. -/
theorem of_append_sign {js : List Kind} {ts tokens : List Token} (hk : k.isSign = true)
    (hts : Marked none ks ts) (h : Marked none (ks ++ k :: js) tokens) :
    ∃ us, tokens.map bare = ts.map bare ++ us.map bare ∧ Marked (some k) js us := by
  obtain ⟨ts', us, before, rfl, hts', hus⟩ := h.of_append
  exact ⟨us, by rw [List.map_append, hts.bare_eq hts'], hus.of_sign hk⟩

end Token.Marked

/-! ## Lines behind a sign -/

open Token (Kind Reads Marked)

theorem Token.isSign_of_ofSymbol? {c : Char} {k : Kind} (h : Kind.ofSymbol? c = some k) :
    k.isSign = Line.isSign c := by
  unfold Kind.ofSymbol? at h
  split at h
  all_goals first
    | contradiction
    | (obtain rfl := Option.some.inj h; rfl)

theorem Token.isSign_head?_of_reads {word : List Char} {k : Kind} (h : Reads word k)
    (hword : ∀ c ∈ word.head?, Line.isSign c = false) : k.isSign = false := by
  cases h with
  | function _ _ => rfl
  | var _ _ => rfl
  | number _ _ _ => rfl
  | symbol hk => exact (isSign_of_ofSymbol? hk).trans (hword _ rfl)

namespace Line

variable {left right : List Char} {s : Char} {k : Kind}

/-- If a line does not start with a sign, its first kind is none. -/
theorem isSign_head?_of_reads {kinds : List Kind} (h : List.Forall₂ Reads (lexemes right) kinds)
    (hright : ∀ c ∈ right.head?, isSign c = false) : ∀ k ∈ kinds.head?, k.isSign = false := by
  have hflat := flatten_lexemes right
  cases hwords : lexemes right with
  | nil =>
    rw [hwords] at h
    obtain rfl := List.forall₂_nil_left_iff.mp h
    nofun
  | cons word words =>
    have hword : word ≠ [] := ne_nil_of_mem_lexemes (hwords ▸ List.mem_cons_self)
    rw [hwords] at h hflat
    obtain ⟨k, ks, hk, -, rfl⟩ := List.forall₂_cons_left_iff.mp h
    rintro _ ⟨rfl⟩
    refine Token.isSign_head?_of_reads hk ?_
    obtain ⟨c, rest, rfl⟩ := List.exists_cons_of_ne_nil hword
    rw [← hflat] at hright
    exact hright

/-- A sign between two lines that have tokens comes between their kinds. -/
theorem exists_tokenize_join (hk : Kind.ofSymbol? s = some k) (hright : right ≠ [])
    {ts us : List Token} (hts : tokenize (String.ofList left) = .ok ts)
    (hus : tokenize (String.ofList right) = .ok us) :
    ∃ ks js tokens, Marked none ks ts ∧ List.Forall₂ Reads (lexemes right) js ∧
      Marked none js us ∧ tokenize (String.ofList (left ++ s :: right)) = .ok tokens ∧
      Marked none (ks ++ k :: js) tokens := by
  obtain ⟨ks, hks, -, hmarked⟩ := exists_kinds_of_tokenize hts
  obtain ⟨js, hjs, hlast, hmarked'⟩ := exists_kinds_of_tokenize hus
  rw [String.toList_ofList] at hks hjs
  have hreads := (Token.forall₂_reads_symbol_iff hk).mpr ⟨ks, js, rfl, hks, hjs⟩
  have hne : js ≠ [] := by
    rintro rfl
    have hwords := List.forall₂_nil_right_iff.mp hjs
    have hflat := flatten_lexemes right
    rw [hwords] at hflat
    exact hright hflat.symm
  have hlast' : ∀ j ∈ (ks ++ k :: js).getLast?, j.isSign = false := by
    rw [List.getLast?_append, List.getLast?_cons, List.getLast?_eq_some_getLast hne] at *
    exact hlast
  obtain ⟨tokens, htokens, hall⟩ := exists_tokenize_of_kinds hreads hlast'
  exact ⟨ks, js, tokens, hmarked, hjs, hmarked', htokens, hall⟩

/-- Joining two lines by a sign joins their expressions, where the sign changes the leftmost operand
of the second one as it changes its first token. -/
theorem compile_of_join {limits : Limits} {terms others : List Expr} {g : Sign → Sign}
    (hk : Kind.ofSymbol? s = some k) (hsign : k.isSign = true) (hright : right ≠ [])
    (hleft : compile limits (String.ofList left) = .ok (.sum terms .positive))
    (hothers : compile limits (String.ofList right) = .ok (.sum others .positive))
    (hmarks : ∀ js us us', List.Forall₂ Reads (lexemes right) js → Marked (some k) js us' →
      Marked none js us → us'.map Token.bare = (us.modifyHead (Token.marked g)).map Token.bare) :
    compile limits (String.ofList (left ++ s :: right)) =
      .ok (.sum (terms ++ others.modifyHead (Expr.mapLead (Expr.mapSign g))) .positive) := by
  obtain ⟨ts, hts⟩ := exists_tokenize_of_compile hleft
  obtain ⟨us, hus⟩ := exists_tokenize_of_compile hothers
  rw [← toOption_eq_some, toOption_compile_of_tokenize hts] at hleft
  rw [← toOption_eq_some, toOption_compile_of_tokenize hus] at hothers
  obtain ⟨ks, js, tokens, hks, hreads, hjs, htokens, hall⟩ :=
    exists_tokenize_join hk hright hts hus
  -- the tokens of the second line are the same behind the sign, but for the mark of the first one
  obtain ⟨us', htokens', hus'⟩ := hks.of_append_sign hsign hall
  have hbare : tokens.map Token.bare =
      (ts ++ us.modifyHead (Token.marked g)).map Token.bare := by
    rw [htokens', hmarks js us us' hreads hus' hjs, List.map_append]
  rw [← toOption_eq_some, toOption_compile_of_tokenize htokens, Expr.ofTokens?_congr hbare]
  exact Expr.ofTokens?_join hleft hothers g

end Line

/-- Joining two lines by a `+` joins their terms. Joining them by a `-`, unless the second one has a
sign itself, moreover makes its leftmost operand negative. -/
theorem compile_join {limits : Limits} {left right : String} {terms others : List Expr}
    (hleft : compile limits left = .ok (.sum terms .positive))
    (hright : compile limits right = .ok (.sum others .positive)) (hne : right ≠ "") :
    compile limits (left ++ "+" ++ right) = .ok (.sum (terms ++ others) .positive) ∧
    ((∀ c ∈ right.toList.head?, Line.isSign c = false) →
      compile limits (left ++ "-" ++ right) =
        .ok (.sum (terms ++ others.modifyHead (Expr.mapLead (Expr.mapSign fun _ => .negative)))
          .positive)) := by
  have hne' : right.toList ≠ [] := fun h => hne (String.toList_eq_nil_iff.mp h)
  have hline (s : Char) : left ++ String.singleton s ++ right =
      String.ofList (left.toList ++ s :: right.toList) := by
    apply String.toList_injective
    simp
  rw [← String.ofList_toList (s := left)] at hleft
  rw [← String.ofList_toList (s := right)] at hright
  constructor
  · have hjoin := Line.compile_of_join (s := '+') rfl rfl hne' hleft hright fun js us us' _ h h' =>
      h.bare_eq_plus h'
    have hid : Expr.mapLead (Expr.mapSign id) = id := by
      rw [funext Expr.mapSign_id]
      exact funext Expr.mapLead_id
    rw [hid, List.modifyHead_id] at hjoin
    exact (congrArg (compile limits) (hline '+')).trans hjoin
  · intro hsign
    have hjoin := Line.compile_of_join (s := '-') rfl rfl hne' hleft hright
      fun js us us' hreads h h' => h.bare_eq_minus (Line.isSign_head?_of_reads hreads hsign) h'
    exact (congrArg (compile limits) (hline '-')).trans hjoin

/-- Behind a `-`, the base of the tower that a product starts with becomes negative. -/
theorem compile_join_tower :
    let x : Expr := .var "x" .positive
    let y (sign : Sign) : Expr := .var "y" sign
    let product (sign : Sign) : Expr := .product
      [.power [y sign, x] .positive, .call "Sin" (.sum [x] .positive) .positive] .positive
    compile .standard "-y" = .ok (.sum [y .negative] .positive) ∧
      compile .standard "y^x*Sin(x)" = .ok (.sum [product .positive] .positive) ∧
      compile .standard "-y+y^x*Sin(x)" =
        .ok (.sum [y .negative, product .positive] .positive) ∧
      compile .standard "-y-y^x*Sin(x)" =
        .ok (.sum [y .negative, product .negative] .positive) := by
  intro x y product
  have htokens : tokenize "-y" = .ok [⟨.var "y", .negative, true, ⟨1, 2⟩⟩] := by decide +kernel
  have htokens' : tokenize "y^x*Sin(x)" = .ok [.plain (.var "y") ⟨0, 1⟩, .plain .power ⟨1, 2⟩,
      .plain (.var "x") ⟨2, 3⟩, .plain .times ⟨3, 4⟩, .plain (.function "Sin") ⟨4, 7⟩,
      .plain .openBracket ⟨7, 8⟩, .plain (.var "x") ⟨8, 9⟩, .plain .closeBracket ⟨9, 10⟩] := by
    decide +kernel
  have hleft : compile .standard "-y" = .ok (.sum [y .negative] .positive) :=
    compile_eq_ok.mpr ⟨_, _, htokens, rfl, rfl⟩
  have hright : compile .standard "y^x*Sin(x)" = .ok (.sum [product .positive] .positive) :=
    compile_eq_ok.mpr ⟨_, _, htokens', rfl, rfl⟩
  obtain ⟨hplus, hminus⟩ := compile_join hleft hright (by decide)
  have hhead : ∀ c ∈ "y^x*Sin(x)".toList.head?, Line.isSign c = false := by
    rintro _ ⟨rfl⟩
    rfl
  exact ⟨hleft, hright, hplus, hminus hhead⟩

end Reckon
