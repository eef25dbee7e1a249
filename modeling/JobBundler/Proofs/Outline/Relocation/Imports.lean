import JobBundler.Proofs.Outline.Relocation

/-!
# Imports at another place

Imports are read in the same way at another place, and when a declaration follows them on a new line
(`importRest_relocate`).
-/

namespace JobBundler

open Token (relocateAll)

variable {ρ : Relocation} {bs ts us : List Token} {t u : Token} {c c' : Cursor} {start : Nat}

theorem isImportDeclaration_relocate (hbs : StartLine bs) (ts : List Token) :
    isImportDeclaration (relocateAll ρ bs ts) = isImportDeclaration ts := by
  cases ts with
  | cons t ts => rfl
  | nil =>
    cases bs with
    | nil => rfl
    | cons u us =>
      have hparen : (u.kind == .opening .paren) = false :=
        beq_eq_false_iff_ne.2 (hbs.kind_ne (by decide))
      have hdot : (u.kind == .dot) = false := beq_eq_false_iff_ne.2 (hbs.kind_ne (by decide))
      rw [Token.relocateAll_nil, isImportDeclaration, List.head?_cons, Option.any_some, hparen, hdot]
      rfl

/-- The word `type` is the last one of the tokens. -/
def Cursor.EndsInType (c : Cursor) : Prop :=
  c.tokens.map (·.kind) = [.ident "type"]

theorem typeModifier?_relocate (hbs : StartLine bs) {modifies : TokenKind → Bool}
    (hend : ¬c.EndsInType) :
    typeModifier? modifies (c.relocate ρ bs) =
      (typeModifier? modifies c).map (Cursor.relocate ρ bs) := by
  obtain ⟨stop, ts⟩ := c
  unfold typeModifier?
  rcases ts with _ | ⟨t, _ | ⟨u, us⟩⟩
  · rcases bs with _ | ⟨u, _ | ⟨v, vs⟩⟩
    · rfl
    · rfl
    · have hword : u.isWord "type" = false := beq_eq_false_iff_ne.2 (hbs.kind_ne (by decide))
      dsimp only [Cursor.relocate_tokens, Token.relocateAll_nil]
      rw [hword]
      rfl
  · have hword : t.isWord "type" = false :=
      beq_eq_false_iff_ne.2 fun h => hend (congrArg (fun kind => [kind]) h)
    rcases bs with _ | ⟨u, us⟩
    · rfl
    · dsimp only [Cursor.relocate_tokens, Token.relocateAll_cons, Token.relocateAll_nil]
      rw [Token.relocate_isWord, hword]
      rfl
  · dsimp only [Cursor.relocate_tokens, Token.relocateAll_cons]
    rw [Token.relocate_isWord, Token.relocate_kind]
    split <;> rfl

theorem modified_relocate (modified : Option Cursor) (c : Cursor) :
    (modified.map (Cursor.relocate ρ bs)).getD (c.relocate ρ bs) =
      (modified.getD c).relocate ρ bs := by
  cases modified <;> rfl

theorem importSpecifier_relocate (hbs : StartLine bs) {n : NamedImport}
    (h : importSpecifier c = .ok (n, c')) (hne : c'.tokens ≠ []) :
    importSpecifier (c.relocate ρ bs) = .ok (n, c'.relocate ρ bs) := by
  have hend : ¬c.EndsInType := by
    intro hend
    have hlength : c.tokens.length = 1 := by simpa using congrArg List.length hend
    have hlt := importSpecifier_length_lt h
    have hpos := List.length_pos_iff.2 hne
    omega
  have hread := importSpecifier_eq_ok h
  unfold importSpecifier
  rw [typeModifier?_relocate hbs hend]
  dsimp only
  rw [modified_relocate, Option.isSome_map]
  generalize (typeModifier? marksSpecifier c).getD c = c₁ at hread ⊢
  have htokens {kind : TokenKind} {span : Span} {newline : Bool} {us : List Token}
      (hc : c₁.tokens = ⟨kind, span, newline⟩ :: us) :
      (c₁.relocate ρ bs).tokens = ⟨kind, span.relocate ρ, newline⟩ :: relocateAll ρ bs us := by
    rw [Cursor.relocate_tokens, hc]
    rfl
  cases hread with
  | renamed hc has hbinding =>
    rw [htokens hc, Cursor.advance_relocate (hc ▸ List.cons_ne_nil _ _)]
    dsimp only
    rw [Cursor.atWord_relocate hbs (by decide), if_pos has,
      Cursor.advance_relocate (Cursor.ne_nil_of_atKind has)]
    exact Except.bind_eq_ok_iff.2 ⟨_, Cursor.expectName_relocate hbinding, rfl⟩
  | plain hc has =>
    rw [htokens hc, Cursor.advance_relocate (hc ▸ List.cons_ne_nil _ _)]
    dsimp only
    rw [Cursor.atWord_relocate hbs (by decide), if_neg has]
    rfl
  | string hc has hbinding =>
    rw [htokens hc, Cursor.advance_relocate (hc ▸ List.cons_ne_nil _ _)]
    exact Except.bind_eq_ok_iff.2 ⟨_, Cursor.expectWord_relocate has,
      Except.bind_eq_ok_iff.2 ⟨_, Cursor.expectName_relocate hbinding, rfl⟩⟩

theorem importSpecifiers_eq (c : Cursor) :
    importSpecifiers c =
      if c.atKind (.closing .brace) then .ok ([], c.advance)
      else (do
        let (n, c) ← importSpecifier c
        if c.atKind .comma then do
          let (ns, c) ← importSpecifiers c.advance
          return (n :: ns, c)
        else if c.atKind (.closing .brace) then .ok ([n], c.advance)
        else .error (c.unexpected .commaOrBrace)) := by
  rw [importSpecifiers]
  split
  · rfl
  · cases importSpecifier c <;> rfl

theorem importSpecifiers_relocate (hbs : StartLine bs) {ns : List NamedImport}
    (h : importSpecifiers c = .ok (ns, c')) :
    importSpecifiers (c.relocate ρ bs) = .ok (ns, c'.relocate ρ bs) := by
  fun_induction importSpecifiers c generalizing ns c' with
  | case1 c hclose =>
    cases h
    rw [importSpecifiers_eq, Cursor.atKind_relocate hbs (by decide), if_pos hclose,
      Cursor.advance_relocate (Cursor.ne_nil_of_atKind hclose)]
  | case2 | case5 => cases h
  | case3 c hclose n c₁ hn hcomma ih =>
    obtain ⟨⟨ns', c₂⟩, h₂, h⟩ := Except.bind_eq_ok_iff.1 h
    cases h
    have hne := Cursor.ne_nil_of_atKind hcomma
    rw [importSpecifiers_eq, Cursor.atKind_relocate hbs (by decide), if_neg hclose,
      importSpecifier_relocate hbs hn hne]
    show (if (c₁.relocate ρ bs).atKind .comma then _ else _) = _
    rw [Cursor.atKind_relocate hbs (by decide), if_pos hcomma, Cursor.advance_relocate hne]
    exact Except.bind_eq_ok_iff.2 ⟨_, ih h₂, rfl⟩
  | case4 c hclose n c₁ hn hcomma hclose₁ =>
    cases h
    have hne := Cursor.ne_nil_of_atKind hclose₁
    rw [importSpecifiers_eq, Cursor.atKind_relocate hbs (by decide), if_neg hclose,
      importSpecifier_relocate hbs hn hne]
    show (if (c₁.relocate ρ bs).atKind .comma then _ else _) = _
    rw [Cursor.atKind_relocate hbs (by decide), if_neg hcomma,
      Cursor.atKind_relocate hbs (by decide), if_pos hclose₁, Cursor.advance_relocate hne]

theorem importAttributes_eq (c : Cursor) :
    importAttributes c =
      if (c.atWord "with" || c.atWord "assert") && c.advance.atKind (.opening .brace) then do
        let c' ← skipGroup 0 c.advance.advance.tokens
        return (some ⟨c.start, c'.lastStop⟩, c')
      else .ok (none, c) := by
  obtain ⟨stop, ts⟩ := c
  rcases ts with _ | ⟨t, _ | ⟨u, us⟩⟩
  · rfl
  · have hbrace : (Cursor.mk stop [t]).advance.atKind (.opening .brace) = false := rfl
    rw [hbrace, Bool.and_false]
    rfl
  · have hbrace : (Cursor.mk stop (t :: u :: us)).advance.atKind (.opening .brace) =
      (u.kind == .opening .brace) := rfl
    rw [hbrace]
    unfold importAttributes
    split
    · rename_i hts
      cases hts
      rw [beq_self_eq_true, Bool.and_true]
      rfl
    · rename_i hts
      have hne : (u.kind == .opening .brace) = false := beq_eq_false_iff_ne.2 fun h =>
        hts t u.span u.newlineBefore us (by rw [← h])
      rw [hne, Bool.and_false]
      rfl

theorem Cursor.start_relocate (h : c.tokens ≠ []) : (c.relocate ρ bs).start = ρ.start c.start := by
  obtain ⟨stop, ts⟩ := c
  cases ts with
  | nil => exact absurd rfl h
  | cons t ts => rfl

theorem importAttributes_relocate (hbs : StartLine bs) {a : Option Span}
    (h : importAttributes c = .ok (a, c')) :
    importAttributes (c.relocate ρ bs) = .ok (a.map (Span.relocate ρ), c'.relocate ρ bs) := by
  rw [importAttributes_eq] at h ⊢
  rw [Cursor.atWord_relocate hbs (by decide), Cursor.atWord_relocate hbs (by decide)]
  cases hword : c.atWord "with" || c.atWord "assert" with
  | false =>
    rw [hword] at h
    cases h
    rfl
  | true =>
    have hne : c.tokens ≠ [] := by
      rw [Bool.or_eq_true] at hword
      exact hword.elim Cursor.ne_nil_of_atKind Cursor.ne_nil_of_atKind
    rw [hword, Bool.true_and] at h
    rw [Bool.true_and, Cursor.advance_relocate hne, Cursor.atKind_relocate hbs (by decide)]
    split at h
    · rename_i hbrace
      obtain ⟨c₁, h₁, h⟩ := Except.bind_eq_ok_iff.1 h
      cases h
      rw [if_pos hbrace, Cursor.advance_relocate (Cursor.ne_nil_of_atKind hbrace),
        Cursor.start_relocate hne]
      exact Except.bind_eq_ok_iff.2 ⟨_, skipGroup_relocate h₁, rfl⟩
    · rename_i hbrace
      cases h
      rw [if_neg hbrace]
      rfl

theorem importTail_relocate (hbs : StartLine bs) {typeOnly : Bool} {clause : ImportClause}
    {d : ImportDecl} (h : importTail start typeOnly clause c = .ok (d, c')) :
    importTail (ρ.start start) typeOnly clause (c.relocate ρ bs) =
      .ok (d.relocate ρ, c'.relocate ρ bs) := by
  unfold importTail at h ⊢
  obtain ⟨⟨specifier, c₁⟩, h₁, h⟩ := Except.bind_eq_ok_iff.1 h
  obtain ⟨⟨attributes, c₂⟩, h₂, h⟩ := Except.bind_eq_ok_iff.1 h
  cases h
  refine Except.bind_eq_ok_iff.2 ⟨_, Cursor.expectString_relocate h₁,
    Except.bind_eq_ok_iff.2 ⟨_, importAttributes_relocate hbs h₂, ?_⟩⟩
  dsimp only
  rw [Cursor.skipKind_relocate hbs (by decide)]
  rfl

theorem innerClause_relocate (hbs : StartLine bs) {name : Option String} {clause : ImportClause}
    (h : innerClause name c = .ok (clause, c')) :
    innerClause name (c.relocate ρ bs) = .ok (clause, c'.relocate ρ bs) := by
  unfold innerClause
  rw [Cursor.atKind_relocate hbs (by decide), Cursor.atKind_relocate hbs (by decide)]
  cases innerClause_eq_ok h with
  | space hstar has hspace hfrom =>
    rw [if_pos hstar, Cursor.advance_relocate (Cursor.ne_nil_of_atKind hstar)]
    exact Except.bind_eq_ok_iff.2 ⟨_, Cursor.expectWord_relocate has,
      Except.bind_eq_ok_iff.2 ⟨_, Cursor.expectName_relocate hspace,
        Except.bind_eq_ok_iff.2 ⟨_, Cursor.expectWord_relocate hfrom, rfl⟩⟩⟩
  | named hstar hbrace hnamed hfrom =>
    rw [if_neg hstar, if_pos hbrace, Cursor.advance_relocate (Cursor.ne_nil_of_atKind hbrace)]
    exact Except.bind_eq_ok_iff.2 ⟨_, importSpecifiers_relocate hbs hnamed,
      Except.bind_eq_ok_iff.2 ⟨_, Cursor.expectWord_relocate hfrom, rfl⟩⟩

theorem atKind_of_innerClause {name : Option String} {clause : ImportClause}
    (h : innerClause name c = .ok (clause, c')) : c.atKind .star ∨ c.atKind (.opening .brace) := by
  cases innerClause_eq_ok h with
  | space hstar => exact .inl hstar
  | named _ hbrace => exact .inr hbrace

theorem importClause_of_atKind (h : c.atKind .star ∨ c.atKind (.opening .brace)) :
    importClause c = (do
      let (clause, c) ← innerClause none c
      return (some clause, c)) := by
  obtain ⟨stop, ts⟩ := c
  cases ts with
  | nil =>
    rcases h with h | h
    · cases h
    · cases h
  | cons t ts =>
    obtain ⟨kind, span, newline⟩ := t
    rcases h with h | h
    · obtain rfl : kind = .star := beq_iff_eq.1 h
      rfl
    · obtain rfl : kind = .opening .brace := beq_iff_eq.1 h
      rfl

theorem importClause_of_name {name : String} {span : Span} {newline : Bool}
    (h : c.tokens = ⟨.ident name, span, newline⟩ :: u :: us) (hu : u.kind ≠ .assign) :
    importClause c =
      if c.advance.atKind .comma then do
        let (clause, c) ← innerClause (some name) c.advance.advance
        return (some clause, c)
      else do return (some ⟨some name, none, []⟩, ← c.advance.expectWord "from") := by
  unfold importClause
  rw [h]
  obtain ⟨kind, span', newline'⟩ := u
  cases kind with
  | assign => exact absurd rfl hu
  | _ => rfl

/-- A name alone is no clause. -/
theorem tail_ne_nil_of_importClause {clause : Option ImportClause} (h : importClause c = .ok (clause, c'))
    {name : String} {span : Span} {newline : Bool}
    (hts : c.tokens = ⟨.ident name, span, newline⟩ :: us) : us ≠ [] := by
  rintro rfl
  obtain ⟨stop, ts⟩ := c
  cases hts
  obtain ⟨c₁, h₁, -⟩ := Except.bind_eq_ok_iff.1 h
  cases h₁

/-- Wherever the tokens are, the comma after a name tells what the clause goes on with. -/
theorem importClause_relocate_of_name (hbs : StartLine bs) {name : String} {span : Span}
    {newline : Bool} (hts : c.tokens = ⟨.ident name, span, newline⟩ :: us) (hne : us ≠ [])
    (hassign : ∀ t ∈ us.head?, t.kind ≠ .assign) :
    importClause (c.relocate ρ bs) =
      if c.advance.atKind .comma then do
        let (clause, c) ← innerClause (some name) (c.advance.relocate ρ bs).advance
        return (some clause, c)
      else do
        return (some ⟨some name, none, []⟩, ← (c.advance.relocate ρ bs).expectWord "from") := by
  obtain ⟨u, us, rfl⟩ := List.exists_cons_of_ne_nil hne
  have htokens : (c.relocate ρ bs).tokens = ⟨.ident name, span.relocate ρ, newline⟩ ::
      u.relocate ρ :: relocateAll ρ bs us := by
    rw [Cursor.relocate_tokens, hts]
    rfl
  rw [importClause_of_name htokens (hassign u rfl),
    Cursor.advance_relocate (hts ▸ List.cons_ne_nil _ _), Cursor.atKind_relocate hbs (by decide)]

theorem importClause_relocate (hbs : StartLine bs) {clause : Option ImportClause}
    (h : importClause c = .ok (clause, c')) :
    importClause (c.relocate ρ bs) = .ok (clause, c'.relocate ρ bs) := by
  cases importClause_eq_ok h with
  | @absent value span newline ts hc =>
    have htokens : (c.relocate ρ bs).tokens =
        ⟨.str value, span.relocate ρ, newline⟩ :: relocateAll ρ bs ts := by
      rw [Cursor.relocate_tokens, hc]
      rfl
    unfold importClause
    rw [htokens]
  | @assignment name span span' newline newline' ts _ hc hskip =>
    have htokens : (c.relocate ρ bs).tokens = ⟨.ident name, span.relocate ρ, newline⟩ ::
        ⟨.assign, span'.relocate ρ, newline'⟩ :: relocateAll ρ bs ts := by
      rw [Cursor.relocate_tokens, hc]
      rfl
    unfold importClause
    rw [htokens]
    exact Except.bind_eq_ok_iff.2 ⟨_, skipStatement_relocate hbs hskip, rfl⟩
  | both hc hassign hcomma hinner =>
    rw [importClause_relocate_of_name hbs hc (tail_ne_nil_of_importClause h hc) hassign,
      if_pos hcomma, Cursor.advance_relocate (Cursor.ne_nil_of_atKind hcomma)]
    exact Except.bind_eq_ok_iff.2 ⟨_, innerClause_relocate hbs hinner, rfl⟩
  | default hc hassign hcomma hfrom =>
    rw [importClause_relocate_of_name hbs hc (tail_ne_nil_of_importClause h hc) hassign,
      if_neg hcomma]
    exact Except.bind_eq_ok_iff.2 ⟨_, Cursor.expectWord_relocate hfrom, rfl⟩
  | inner hinner =>
    have hkind : (c.relocate ρ bs).atKind .star ∨ (c.relocate ρ bs).atKind (.opening .brace) := by
      rw [Cursor.atKind_relocate hbs (by decide), Cursor.atKind_relocate hbs (by decide)]
      exact atKind_of_innerClause hinner
    rw [importClause_of_atKind hkind]
    exact Except.bind_eq_ok_iff.2 ⟨_, innerClause_relocate hbs hinner, rfl⟩

theorem importRest_relocate (hbs : StartLine bs) {decl : Option ImportDecl}
    (h : importRest start c = .ok (decl, c')) :
    importRest (ρ.start start) (c.relocate ρ bs) =
      .ok (decl.map (ImportDecl.relocate ρ), c'.relocate ρ bs) := by
  have hend : ¬c.EndsInType := by
    intro hend
    obtain ⟨⟨kind, span, newline⟩, hts, hkind⟩ := List.map_eq_singleton_iff.1 hend
    obtain rfl : kind = .ident "type" := hkind
    have hnone : typeModifier? marksDeclaration c = none := by
      rw [typeModifier?, hts]
    unfold importRest at h
    rw [hnone] at h
    obtain ⟨⟨clause, c₁⟩, h₁, -⟩ := Except.bind_eq_ok_iff.1 h
    exact tail_ne_nil_of_importClause h₁ hts rfl
  unfold importRest at h ⊢
  rw [typeModifier?_relocate hbs hend]
  dsimp only at h ⊢
  rw [modified_relocate, Option.isSome_map]
  obtain ⟨⟨clause, c₁⟩, h₁, h⟩ := Except.bind_eq_ok_iff.1 h
  refine Except.bind_eq_ok_iff.2 ⟨_, importClause_relocate hbs h₁, ?_⟩
  cases clause with
  | none =>
    cases h
    rfl
  | some clause =>
    obtain ⟨⟨d, c₂⟩, h₂, h⟩ := Except.bind_eq_ok_iff.1 h
    cases h
    exact Except.bind_eq_ok_iff.2 ⟨_, importTail_relocate hbs h₂, rfl⟩

end JobBundler
