import Reckon.Proofs.Line.Signs
import Reckon.Proofs.Token.Places
import Reckon.Proofs.Tree.Swaps

/-!
# Lines that are read alike

The flavour of a bracket is not read, of a run of signs only the last one is, and an operand that
stands next to another one is read as if there were a `*` between them. So a line that is changed in
one of these ways compiles under the same limits, and to the same expression (`compile_variant`).
-/

namespace Reckon

namespace Line

/-! ## Variants of a line -/

/-- Whether a character is an opening bracket. -/
def isOpening (c : Char) : Bool := ['(', '{', '['].contains c

/-- Whether a character is a closing bracket. -/
def isClosing (c : Char) : Bool := [')', '}', ']'].contains c

/-- The second line is the first one with a bracket exchanged for another one of the same side, with
a run of signs replaced by its last one, or with a `*` between two neighbouring tokens that can end
and start an operand. -/
inductive Variant : List Char → List Char → Prop where
  | bracket (before after : List Char) {b b' : Char}
      (h : isOpening b = true ∧ isOpening b' = true ∨ isClosing b = true ∧ isClosing b' = true) :
      Variant (before ++ b :: after) (before ++ b' :: after)
  | signs (before after : List Char) {run : List Char} {s : Char} (hrun : run ≠ [])
      (h : ∀ c ∈ run ++ [s], isSign c = true) :
      Variant (before ++ (run ++ s :: after)) (before ++ s :: after)
  | times {line : List Char} {ts us : List Token} {t u : Token}
      (h : Token.scan (String.ofList line) = .ok (ts ++ t :: u :: us))
      (ht : t.kind.endsOperand = true) (hu : u.kind.startsOperand = true) :
      Variant line (line.take t.span.stop ++ '*' :: line.drop t.span.stop)

theorem ofSymbol?_of_isOpening {c : Char} (h : isOpening c = true) :
    Token.Kind.ofSymbol? c = some .openBracket := by
  have hc : c = '(' ∨ c = '{' ∨ c = '[' := by simpa [isOpening] using h
  rcases hc with rfl | rfl | rfl <;> rfl

theorem ofSymbol?_of_isClosing {c : Char} (h : isClosing c = true) :
    Token.Kind.ofSymbol? c = some .closeBracket := by
  have hc : c = ')' ∨ c = '}' ∨ c = ']' := by simpa [isClosing] using h
  rcases hc with rfl | rfl | rfl <;> rfl

open Token (Kind Reads Marked)

/-! ## Brackets and runs of signs -/

/-- Symbols of the same kind are read alike. -/
theorem toOption_compile_symbol (limits : Limits) (before after : List Char) {b b' : Char}
    {k : Kind} (hb : Kind.ofSymbol? b = some k) (hb' : Kind.ofSymbol? b' = some k) :
    (compile limits (String.ofList (before ++ b :: after))).toOption =
      (compile limits (String.ofList (before ++ b' :: after))).toOption := by
  have hreads (kinds : List Kind) : List.Forall₂ Reads (lexemes (before ++ b :: after)) kinds ↔
      List.Forall₂ Reads (lexemes (before ++ b' :: after)) kinds :=
    (Token.forall₂_reads_symbol_iff hb).trans (Token.forall₂_reads_symbol_iff hb').symm
  refine toOption_compile_of_kinds (R := Eq) (fun ks hks => ⟨ks, (hreads ks).mp hks, rfl⟩)
    (fun ks hks => ⟨ks, (hreads ks).mpr hks, rfl⟩) (fun ks ks' heq => congrArg _ heq) ?_
  rintro ks _ rfl tokens tokens' h h'
  exact Expr.ofTokens?_congr (h.bare_eq h')

/-- All signs of a run but the last one may be left out. -/
theorem toOption_compile_run (limits : Limits) (before after : List Char) {run : List Char}
    {s : Char} (h : ∀ c ∈ run ++ [s], isSign c = true) :
    (compile limits (String.ofList (before ++ (run ++ s :: after)))).toOption =
      (compile limits (String.ofList (before ++ s :: after))).toOption := by
  induction run with
  | nil => rfl
  | cons c run ih =>
    -- the first sign of the run is idle, as a sign comes next
    rw [List.cons_append, List.forall_mem_cons] at h
    rw [← ih h.2]
    obtain ⟨d, rest, hrest, hd⟩ : ∃ d rest, run ++ s :: after = d :: rest ∧ isSign d = true := by
      cases run with
      | nil => exact ⟨s, after, rfl, h.2 s List.mem_cons_self⟩
      | cons d run => exact ⟨d, run ++ s :: after, rfl, h.2 d List.mem_cons_self⟩
    obtain ⟨k, hk, hsign⟩ := exists_kind_of_isSign hd
    rw [List.cons_append, hrest]
    exact toOption_compile_idle limits h.1 hk (by cases k <;> first | rfl | contradiction)

end Line

/-! ## Neighbouring operands -/

namespace Token

theorem Kind.isSign_of_endsOperand {k : Kind} (h : k.endsOperand = true) : k.isSign = false := by
  cases k <;> first | rfl | contradiction

theorem Kind.isSign_of_startsOperand {k : Kind} (h : k.startsOperand = true) :
    k.isSign = false := by
  cases k <;> first | rfl | contradiction

/-- A `*` between two tokens of a row changes nothing but that it stands there: the second of them
has no sign before it, with or without the `*`. -/
theorem Marked.exists_times {before : Option Kind} {ks js : List Kind} {k j : Kind}
    {tokens tokens' : List Token} (hk : k.isSign = false) (hj : j.isSign = false)
    (h : Marked before (ks ++ k :: j :: js) tokens)
    (h' : Marked before (ks ++ k :: .times :: j :: js) tokens') :
    ∃ ts us t u star, tokens = ts ++ t :: u :: us ∧ t.kind = k ∧ u.kind = j ∧
      u.explicitSign = false ∧ star.kind = .times ∧
      tokens'.map bare = (ts ++ t :: star :: u :: us).map bare := by
  induction ks generalizing before tokens tokens' with
  | nil =>
    obtain ⟨t, _, rfl, hkind, hsign, hmark, hrest⟩ := h.of_token hk
    obtain ⟨u, us, rfl, hkindu, hsignu, hmarku, hus⟩ := hrest.of_token hj
    obtain ⟨t', _, rfl, hkind', hsign', hmark', hrest'⟩ := h'.of_token hk
    obtain ⟨star, _, rfl, hstar, -, -, hrest'⟩ := hrest'.of_token rfl
    obtain ⟨u', us', rfl, hkindu', hsignu', hmarku', hus'⟩ := hrest'.of_token hj
    -- the token before the second operand is no sign, so it is plain in both rows
    have hplain : u.explicitSign = false := hmarku.trans hk
    have hpositive : u.sign = .positive := by
      rw [hsignu, if_neg]
      rintro ⟨⟩
      contradiction
    refine ⟨[], us, t, u, star, rfl, hkind, hkindu, hplain, hstar, ?_⟩
    simp only [List.nil_append, List.map_cons]
    rw [hus'.bare_eq hus, bare_congr (hkind'.trans hkind.symm) (hsign'.trans hsign.symm)
      (hmark'.trans hmark.symm), bare_congr (hkindu'.trans hkindu.symm)
      (hsignu'.trans hpositive.symm) (hmarku'.trans hplain.symm)]
  | cons i ks ih =>
    cases hi : i.isSign with
    | true => exact ih (h.of_sign hi) (h'.of_sign hi)
    | false =>
      obtain ⟨r, _, rfl, hkind, hsign, hmark, hrest⟩ := h.of_token hi
      obtain ⟨r', _, rfl, hkind', hsign', hmark', hrest'⟩ := h'.of_token hi
      obtain ⟨ts, us, t, u, star, rfl, ht, hu, hplain, hstar, hbare⟩ := ih hrest hrest'
      refine ⟨r :: ts, us, t, u, star, rfl, ht, hu, hplain, hstar, ?_⟩
      rw [List.map_cons, hbare, bare_congr (hkind'.trans hkind.symm) (hsign'.trans hsign.symm)
        (hmark'.trans hmark.symm)]
      rfl

end Token

namespace Tree

/-- A well-formed tree starts with its first token. -/
theorem exists_head?_eq_some {t : Tree} (h : t.WellFormed) :
    ∃ s rest, t.head? = some s ∧ t.flatten = some s :: rest := by
  cases t with
  | leaf token => exact ⟨token, [], rfl, rfl⟩
  | group opener items =>
    obtain ⟨⟨o, rfl, -⟩, -⟩ := h
    exact ⟨o, _, rfl, rfl⟩
  | call function argument => exact ⟨function, _, rfl, rfl⟩

/-- The token that comes next is the first one of the next tree. -/
theorem exists_cons_of_goesOn {items : List Tree} {s : Token} {marks after : List (Option Token)}
    (hwf : AllWellFormed items) (hafter : ¬GoesOn after)
    (h : some s :: marks = flattenAll items ++ after) :
    ∃ t rest, items = t :: rest ∧ t.head? = some s := by
  cases items with
  | nil => exact absurd ⟨s, congrArg List.head? h.symm⟩ hafter
  | cons t rest =>
    obtain ⟨s', _, hhead, hflat⟩ := exists_head?_eq_some hwf.1
    rw [flattenAll, hflat] at h
    obtain ⟨heq, -⟩ := List.cons.inj h
    exact ⟨t, rest, rfl, by rw [hhead, heq]⟩

theorem eq_leaf_of_times {t : Tree} {star : Token} (hwf : t.WellFormed) (h : t.head? = some star)
    (hstar : star.kind = .times) : t = leaf star := by
  cases t with
  | leaf token => rw [Option.some.inj h]
  | group opener items =>
    obtain ⟨⟨o, rfl, ho⟩, -⟩ := hwf
    obtain rfl := Option.some.inj h
    rw [hstar] at ho
    contradiction
  | call function argument =>
    obtain ⟨⟨name, hname⟩, -⟩ := hwf
    obtain rfl := Option.some.inj h
    rw [hstar] at hname
    contradiction

theorem operator?_of_startsOperand {t : Tree} {s : Token} (h : t.head? = some s)
    (hs : s.kind.startsOperand = true) : t.operator? = none := by
  cases hop : t.operator? with
  | none => rfl
  | some found =>
    obtain ⟨rfl, hkind⟩ := Grammar.operator?_eq_some hop
    obtain rfl := Option.some.inj h
    rcases hkind with ⟨hkind, -⟩ | ⟨hkind, -⟩ | ⟨hkind, -⟩ <;> rw [hkind] at hs <;> contradiction

end Tree

namespace Expr

open Reckon.Tree (AllWellFormed AllFit flattenAll EndsOperand GoesOn)

variable {limits : Limits}

/-- A `*` before an operand without a sign is read as if it were not there. -/
theorem rowAfter_times {depth : Nat} {star u : Token} {t : Tree} {rest : List Tree}
    (hstar : star.kind = .times) (ht : t.head? = some u) (hu : u.kind.startsOperand = true)
    (hmark : u.explicitSign = false) :
    rowAfter limits depth (.leaf star :: t :: rest) = rowAfter limits depth (t :: rest) := by
  have hop : Tree.operator? (.leaf star) = some (star, .multiplies) := by
    simp only [Tree.operator?, hstar]
  have hjoint : t.joint = .multiplies := by
    rw [Tree.joint, Tree.explicitSign, ht]
    exact if_neg (by simp [hmark])
  rw [rowAfter_of_operand (Tree.operator?_of_startsOperand ht hu), rowAfter, hop, hjoint]

/-- Tokens behind an operand may be exchanged if the trees of the level that they start with may. -/
theorem ofTokens?_of_swaps {tokens tokens' : List Token}
    {before marks marks' : List (Option Token)} {e : Expr} (h : ofTokens? limits tokens = some e)
    (htokens : tokens.map Token.mark = before ++ marks)
    (htokens' : tokens'.map Token.mark = before ++ marks') (hbefore : EndsOperand before)
    (hmarks : GoesOn marks)
    (hswap : ∀ old after, AllWellFormed old → marks = flattenAll old ++ after → ¬GoesOn after →
      ∃ new, marks' = flattenAll new ++ after ∧ AllWellFormed new ∧
        (∀ depth, AllFit limits.maxDepth depth old → AllFit limits.maxDepth depth new) ∧
        ∀ depth, rowAfter limits depth old = rowAfter limits depth new) :
    ofTokens? limits tokens' = some e := by
  obtain ⟨items, parts, hwf, hfits, hflat, hrow, rfl⟩ := ofTokens?_eq_some_iff.mp h
  obtain ⟨old, after, hold, hsplit, hafter, hnew⟩ :=
    Tree.swapsAt items hwf (hflat.trans htokens) hbefore hmarks
  obtain ⟨new, rfl, hwfnew, hfitsnew, hrownew⟩ := hswap old after hold hsplit hafter
  obtain ⟨items', hswaps, hflat'⟩ := hnew new
  exact ofTokens?_eq_some_iff.mpr ⟨items', parts, hswaps.wellFormed (fun _ => hwfnew) hwf,
    hswaps.fits hfitsnew hfits, hflat'.trans htokens'.symm,
    (hswaps.row_eq hrownew 0).1.symm.trans hrow, rfl⟩

/-- A `*` between tokens that end and start an operand may be left out and put in. -/
theorem ofTokens?_times {ts us : List Token} {t u star : Token} (ht : t.kind.endsOperand = true)
    (hu : u.kind.startsOperand = true) (hmark : u.explicitSign = false)
    (hstar : star.kind = .times) :
    ofTokens? limits (ts ++ t :: u :: us) = ofTokens? limits (ts ++ t :: star :: u :: us) := by
  have hmarku : u.mark = some u := Token.mark_of_ne fun hkind => by
    rw [hkind] at hu
    contradiction
  have hmarkstar : star.mark = some star := Token.mark_of_ne (by simp [hstar])
  have hends : EndsOperand ((ts ++ [t]).map Token.mark) := by
    refine ⟨t.mark, by simp, fun s hs => ?_⟩
    obtain ⟨rfl, -⟩ := Token.mark_eq_some.mp hs
    exact ht
  have hwithout : (ts ++ t :: u :: us).map Token.mark =
      (ts ++ [t]).map Token.mark ++ some u :: us.map Token.mark := by
    simp [hmarku]
  have hwith : (ts ++ t :: star :: u :: us).map Token.mark =
      (ts ++ [t]).map Token.mark ++ some star :: some u :: us.map Token.mark := by
    simp [hmarku, hmarkstar]
  have hleaf : (Tree.leaf star).WellFormed := by
    simp [Tree.WellFormed, hstar]
  -- what the level goes on with starts with the second operand, with or without a star before it
  refine Option.ext fun e => ⟨fun h => ?_, fun h => ?_⟩
  · refine ofTokens?_of_swaps h hwithout hwith hends ⟨u, rfl⟩ fun old after hwf hold hafter => ?_
    obtain ⟨right, rest, rfl, hhead⟩ := Tree.exists_cons_of_goesOn hwf hafter hold
    exact ⟨.leaf star :: right :: rest, congrArg (some star :: ·) hold, ⟨hleaf, hwf⟩,
      fun depth hfits => ⟨trivial, hfits⟩, fun depth => (rowAfter_times hstar hhead hu hmark).symm⟩
  · refine ofTokens?_of_swaps h hwith hwithout hends ⟨star, rfl⟩ fun old after hwf hold hafter => ?_
    obtain ⟨first, others, rfl, hfirst⟩ := Tree.exists_cons_of_goesOn hwf hafter hold
    obtain rfl := Tree.eq_leaf_of_times hwf.1 hfirst hstar
    obtain ⟨-, hothers⟩ := List.cons.inj hold
    obtain ⟨right, rest, rfl, hhead⟩ := Tree.exists_cons_of_goesOn hwf.2 hafter hothers
    exact ⟨right :: rest, hothers, hwf.2, fun depth hfits => hfits.2,
      fun depth => rowAfter_times hstar hhead hu hmark⟩

end Expr

namespace Line

open Token (Kind)

/-- Between two neighbouring tokens that can end and start an operand a `*` may be put. -/
theorem toOption_compile_times (limits : Limits) {line : List Char} {ts us : List Token}
    {t u : Token} (h : Token.scan (String.ofList line) = .ok (ts ++ t :: u :: us))
    (ht : t.kind.endsOperand = true) (hu : u.kind.startsOperand = true) :
    (compile limits (String.ofList line)).toOption = (compile limits (String.ofList
      (line.take t.span.stop ++ '*' :: line.drop t.span.stop))).toOption := by
  obtain ⟨hline, hbefore, hafter⟩ := Token.reads_of_scan h
  have hline' := (Token.forall₂_reads_symbol_iff (c := '*') rfl).mpr ⟨_, _, rfl, hbefore, hafter⟩
  have hunique := Token.rightUnique_reads.forall₂
  refine toOption_compile_of_kinds (R := fun ks ks' => ks = (ts ++ t :: u :: us).map Token.kind ∧
    ks' = (ts ++ [t]).map Token.kind ++ .times :: (u :: us).map Token.kind) ?_ ?_ ?_ ?_
  · exact fun ks hks => ⟨_, hline', hunique hks hline, rfl⟩
  · exact fun ks' hks' => ⟨_, hline, rfl, hunique hks' hline'⟩
  · rintro _ _ ⟨rfl, rfl⟩
    simp [List.getLast?_append, List.getLast?_cons]
  · rintro _ _ ⟨rfl, rfl⟩ tokens tokens' hmarked hmarked'
    rw [List.map_append, List.map_cons, List.map_cons] at hmarked
    rw [List.map_append, List.append_assoc] at hmarked'
    obtain ⟨ts', us', t', u', star, rfl, hkind, hkind', hmark, hstar, hbare⟩ :=
      hmarked.exists_times (Kind.isSign_of_endsOperand ht) (Kind.isSign_of_startsOperand hu)
        hmarked'
    rw [Expr.ofTokens?_congr hbare]
    exact Expr.ofTokens?_times (hkind ▸ ht) (hkind' ▸ hu) hmark hstar

end Line

/-- A line and a variant of it compile under the same limits, to the same expression. -/
theorem compile_variant {line line' : String} (h : Line.Variant line.toList line'.toList)
    (limits : Limits) (e : Expr) : compile limits line = .ok e ↔ compile limits line' = .ok e := by
  have hsame : ∀ l l', Line.Variant l l' → (compile limits (String.ofList l)).toOption =
      (compile limits (String.ofList l')).toOption := by
    intro l l' h
    cases h with
    | bracket before after h =>
      rcases h with ⟨hb, hb'⟩ | ⟨hb, hb'⟩
      · exact Line.toOption_compile_symbol limits before after (Line.ofSymbol?_of_isOpening hb)
          (Line.ofSymbol?_of_isOpening hb')
      · exact Line.toOption_compile_symbol limits before after (Line.ofSymbol?_of_isClosing hb)
          (Line.ofSymbol?_of_isClosing hb')
    | signs before after _ h => exact Line.toOption_compile_run limits before after h
    | times h ht hu => exact Line.toOption_compile_times limits h ht hu
  have hlines := hsame _ _ h
  rw [String.ofList_toList, String.ofList_toList] at hlines
  rw [← toOption_eq_some, ← toOption_eq_some, hlines]

/-- A bracket, a run of signs and a product behind a division are written in another way, one after
the other. -/
theorem compile_variant_quotient :
    Line.Variant "1/2[x]+-3".toList "1/2(x]+-3".toList ∧
      Line.Variant "1/2(x]+-3".toList "1/2(x]-3".toList ∧
      Line.Variant "1/2(x]-3".toList "1/2*(x]-3".toList ∧
      ∃ e, e.text = "((1*(2^-1)*(x))+-3)" ∧ compile .standard "1/2[x]+-3" = .ok e ∧
        compile .standard "1/2*(x]-3" = .ok e := by
  have hbracket : Line.Variant "1/2[x]+-3".toList "1/2(x]+-3".toList :=
    .bracket "1/2".toList "x]+-3".toList (.inl ⟨rfl, rfl⟩)
  have hsigns : Line.Variant "1/2(x]+-3".toList "1/2(x]-3".toList :=
    .signs "1/2(x]".toList "3".toList (List.cons_ne_nil '+' [])
      (List.forall_mem_cons.mpr ⟨rfl, List.forall_mem_singleton.mpr rfl⟩)
  have hscan : Token.scan (String.ofList "1/2(x]-3".toList) =
      .ok ([.plain (.number 1) ⟨0, 1⟩, .plain .divide ⟨1, 2⟩] ++ .plain (.number 2) ⟨2, 3⟩ ::
        .plain .openBracket ⟨3, 4⟩ :: [.plain (.var "x") ⟨4, 5⟩, .plain .closeBracket ⟨5, 6⟩,
          .plain .minus ⟨6, 7⟩, .plain (.number 3) ⟨7, 8⟩]) := by decide +kernel
  have htimes : Line.Variant "1/2(x]-3".toList "1/2*(x]-3".toList := .times hscan rfl rfl
  have hcompile : (compile .standard "1/2[x]+-3").toOption.map Expr.text =
      some "((1*(2^-1)*(x))+-3)" := by decide +kernel
  obtain ⟨e, he, htext⟩ := Option.map_eq_some_iff.mp hcompile
  have he := toOption_eq_some.mp he
  refine ⟨hbracket, hsigns, htimes, e, htext, he, ?_⟩
  exact (compile_variant htimes .standard e).mp
    ((compile_variant hsigns .standard e).mp ((compile_variant hbracket .standard e).mp he))

end Reckon
