import JobBundler.Proofs.Outline.Relocation

/-!
# Classes at another place

Decorators and classes are read in the same way at another place, and when a declaration follows them
on a new line (`exportRest_relocate`, `decoratedRest_relocate`).
-/

namespace JobBundler

open Token (relocateAll)

variable {ρ : Relocation} {bs ts us : List Token} {t u : Token} {c c' : Cursor} {start : Nat}

/-! ## Decorators -/

theorem dottedName_relocate (hbs : StartLine bs) {name : String} (h : dottedName ts = .ok (name, c)) :
    dottedName (relocateAll ρ bs ts) = .ok (name, c.relocate ρ bs) := by
  fun_induction dottedName ts generalizing name c with
  | case1 => cases h
  | case2 => cases h
  | case3 t first d us hname hdot ih =>
    obtain ⟨⟨more, c'⟩, hm, h⟩ := Except.bind_eq_ok_iff.1 h
    cases h
    have hname' : (t.relocate ρ).name? = some first := hname
    unfold dottedName
    dsimp only [Token.relocateAll_cons]
    rw [hname']
    dsimp only
    rw [Token.relocate_kind, if_pos hdot, ih hm]
    rfl
  | case4 t first d us hname hdot =>
    cases h
    have hname' : (t.relocate ρ).name? = some first := hname
    unfold dottedName
    dsimp only [Token.relocateAll_cons]
    rw [hname']
    dsimp only
    rw [Token.relocate_kind, if_neg hdot]
    rfl
  | case5 t first hname =>
    cases h
    have hname' : (t.relocate ρ).name? = some first := hname
    unfold dottedName
    dsimp only [Token.relocateAll_cons, Token.relocateAll_nil]
    rw [hname']
    cases bs with
    | nil => rfl
    | cons u us =>
      dsimp only
      rw [if_neg (hbs.kind_ne (by decide))]
      rfl

theorem decoratorArgs_of_cons (current : Option DecoratorArg) (t : Token) (ts : List Token) :
    decoratorArgs current (t :: ts) =
      match t.kind with
      | .closing .paren => .ok (current.toList, .past t ts)
      | .comma => do
        let (args, c) ← decoratorArgs none ts
        return (current.toList ++ args, c)
      | .opening b => do decoratorArgs (some (.extend current (.opening b))) (← skipGroup 0 ts).tokens
      | kind => decoratorArgs (some (.extend current kind)) ts := by
  rw [decoratorArgs]
  cases hkind : t.kind with
  | opening b => cases skipGroup 0 ts <;> rfl
  | closing b => cases b <;> rfl
  | _ => rfl

theorem decoratorArgs_relocate {current : Option DecoratorArg} {args : List DecoratorArg}
    (h : decoratorArgs current ts = .ok (args, c)) :
    decoratorArgs current (relocateAll ρ bs ts) = .ok (args, c.relocate ρ bs) := by
  fun_induction decoratorArgs current ts generalizing args c with
  | case1 => cases h
  | case2 current t ts hkind =>
    cases h
    rw [Token.relocateAll_cons, decoratorArgs_of_cons, Token.relocate_kind, hkind]
    rfl
  | case3 current t ts hkind ih =>
    obtain ⟨⟨more, c'⟩, hm, h⟩ := Except.bind_eq_ok_iff.1 h
    cases h
    rw [Token.relocateAll_cons, decoratorArgs_of_cons, Token.relocate_kind, hkind]
    dsimp only
    rw [ih hm]
    rfl
  | case4 => cases h
  | case5 current t ts b hkind c' hg ih =>
    rw [Token.relocateAll_cons, decoratorArgs_of_cons, Token.relocate_kind, hkind]
    dsimp only
    rw [skipGroup_relocate hg]
    exact hkind ▸ ih h
  | case6 current t ts hparen hcomma hopen ih =>
    rw [Token.relocateAll_cons, decoratorArgs_of_cons, Token.relocate_kind]
    split
    · exact absurd ‹_› hparen
    · exact absurd ‹_› hcomma
    · exact absurd ‹_› (hopen _)
    · exact ih h

theorem decorator_eq (start : Nat) (c : Cursor) :
    decorator start c =
      if c.atKind (.opening .paren) then do
        let c ← skipGroup 0 c.advance.tokens
        return (⟨"", none, start, c.lastStop⟩, c)
      else do
        let (name, c) ← dottedName c.tokens
        if c.atKind (.opening .paren) then do
          let (args, c) ← decoratorArgs none c.advance.tokens
          return (⟨name, some args, start, c.lastStop⟩, c)
        else return (⟨name, none, start, c.lastStop⟩, c) := by
  have hnot {stop : Nat} {ts : List Token}
      (h : ∀ span newline us, ts = ⟨.opening .paren, span, newline⟩ :: us → False) :
      (⟨stop, ts⟩ : Cursor).atKind (.opening .paren) = false := by
    cases ts with
    | nil => rfl
    | cons t ts =>
      refine beq_eq_false_iff_ne.2 fun hkind => h t.span t.newlineBefore ts ?_
      rw [← hkind]
  obtain ⟨stop, ts⟩ := c
  unfold decorator
  split
  · rename_i hts
    cases hts
    rfl
  · rename_i hts
    rw [hnot hts, if_neg Bool.false_ne_true]
    refine congrArg (dottedName ts >>= ·) (funext fun ⟨name, stop, ts⟩ => ?_)
    dsimp only
    split
    · rfl
    · rename_i hts
      rw [hnot hts, if_neg Bool.false_ne_true]

theorem decorator_relocate (hbs : StartLine bs) {d : Decorator} (h : decorator start c = .ok (d, c')) :
    decorator (ρ.start start) (c.relocate ρ bs) = .ok (d.relocate ρ, c'.relocate ρ bs) := by
  have hparen : .opening .paren ∉ TokenKind.declarations := by decide
  rw [decorator_eq] at h ⊢
  rw [Cursor.atKind_relocate hbs hparen]
  split at h
  · rename_i hopen
    obtain ⟨c₁, h₁, h⟩ := Except.bind_eq_ok_iff.1 h
    cases h
    rw [if_pos hopen, Cursor.advance_relocate (Cursor.ne_nil_of_atKind hopen)]
    exact Except.bind_eq_ok_iff.2 ⟨_, skipGroup_relocate h₁, rfl⟩
  · rename_i hopen
    obtain ⟨⟨name, c₁⟩, h₁, h⟩ := Except.bind_eq_ok_iff.1 h
    rw [if_neg hopen]
    refine Except.bind_eq_ok_iff.2 ⟨_, dottedName_relocate hbs h₁, ?_⟩
    dsimp only at h ⊢
    rw [Cursor.atKind_relocate hbs hparen]
    split at h
    · rename_i hopen
      obtain ⟨⟨args, c₂⟩, h₂, h⟩ := Except.bind_eq_ok_iff.1 h
      cases h
      rw [if_pos hopen, Cursor.advance_relocate (Cursor.ne_nil_of_atKind hopen)]
      exact Except.bind_eq_ok_iff.2 ⟨_, decoratorArgs_relocate h₂, rfl⟩
    · rename_i hopen
      cases h
      rw [if_neg hopen]
      rfl

theorem decorators_of_nil (h : c.tokens = []) : decorators c = .ok ([], c) := by
  rw [decorators]
  split
  · simp_all
  · rfl

theorem decorators_of_cons (h : c.tokens = t :: ts) :
    decorators c =
      if t.kind = .atSign then do
        let (d, c) ← decorator t.span.start (.past t ts)
        let (ds, c) ← decorators c
        return (d :: ds, c)
      else .ok ([], c) := by
  rw [decorators]
  split
  · rename_i hts
    rw [h] at hts
    cases hts
    split
    · cases decorator t.span.start (.past t ts) <;> rfl
    · rfl
  · simp_all

/-- The decorators at a cursor, if the tokens that follow do not come right after them. -/
theorem decorators_relocate (hbs : StartLine bs) {ds : List Decorator}
    (h : decorators c = .ok (ds, c')) (hend : c'.tokens ≠ [] ∨ bs = []) :
    decorators (c.relocate ρ bs) = .ok (ds.map (Decorator.relocate ρ), c'.relocate ρ bs) := by
  fun_induction decorators c generalizing ds c' with
  | case1 => cases h
  | case2 c t ts hts hat d c₁ hd ih =>
    obtain ⟨⟨ds', c₂⟩, h₂, h⟩ := Except.bind_eq_ok_iff.1 h
    cases h
    have htokens : (c.relocate ρ bs).tokens = t.relocate ρ :: relocateAll ρ bs ts := by
      rw [Cursor.relocate_tokens, hts, Token.relocateAll_cons]
    rw [decorators_of_cons htokens, Token.relocate_kind, if_pos hat]
    have hd : decorator (t.relocate ρ).span.start (.past (t.relocate ρ) (relocateAll ρ bs ts)) =
        .ok (d.relocate ρ, c₁.relocate ρ bs) := decorator_relocate hbs hd
    rw [hd]
    exact Except.bind_eq_ok_iff (x := decorators (c₁.relocate ρ bs)).2 ⟨_, ih h₂ hend, rfl⟩
  | case3 c t ts hts hat =>
    cases h
    have htokens : (c.relocate ρ bs).tokens = t.relocate ρ :: relocateAll ρ bs ts := by
      rw [Cursor.relocate_tokens, hts, Token.relocateAll_cons]
    rw [decorators_of_cons htokens, Token.relocate_kind, if_neg hat]
    rfl
  | case4 c hts =>
    cases h
    rcases hend with hne | rfl
    · exact absurd hts hne
    · exact decorators_of_nil (by rw [Cursor.relocate_tokens, hts, Token.relocateAll_nil])

/-! ## Classes -/

theorem classHeritage_of_cons (angles : Nat) (t : Token) (ts : List Token) :
    classHeritage angles (t :: ts) =
      match t.kind with
      | .opening b =>
        if b = .brace ∧ angles = 0 then .ok (t, ts)
        else do classHeritage angles (← skipGroup 0 ts).tokens
      | .semicolon | .closing _ => .error (.unexpectedToken t .classBody)
      | .less => classHeritage (angles + 1) ts
      | .greater => classHeritage (angles - 1) ts
      | .operator text =>
        if text.toList.all (· = '>') then classHeritage (angles - text.length) ts
        else classHeritage angles ts
      | _ => classHeritage angles ts := by
  rw [classHeritage]
  cases hkind : t.kind with
  | opening b =>
    dsimp only
    split
    · rfl
    · cases skipGroup 0 ts <;> rfl
  | _ => rfl

theorem classHeritage_relocate {angles : Nat} (h : classHeritage angles ts = .ok (t, us)) :
    classHeritage angles (relocateAll ρ bs ts) = .ok (t.relocate ρ, relocateAll ρ bs us) := by
  fun_induction classHeritage angles ts with
  | case1 | case3 | case5 | case6 => cases h
  | case2 angles t ts b hkind hb =>
    cases h
    rw [Token.relocateAll_cons, classHeritage_of_cons, Token.relocate_kind, hkind]
    exact if_pos hb
  | case4 angles t ts b hkind hb c hg ih =>
    rw [Token.relocateAll_cons, classHeritage_of_cons, Token.relocate_kind, hkind]
    dsimp only
    rw [if_neg hb, skipGroup_relocate hg]
    exact ih h
  | case7 angles t ts hkind ih | case8 angles t ts hkind ih =>
    rw [Token.relocateAll_cons, classHeritage_of_cons, Token.relocate_kind, hkind]
    exact ih h
  | case9 angles t ts text hkind hall ih =>
    rw [Token.relocateAll_cons, classHeritage_of_cons, Token.relocate_kind, hkind]
    dsimp only
    rw [if_pos hall]
    exact ih h
  | case10 angles t ts text hkind hall ih =>
    rw [Token.relocateAll_cons, classHeritage_of_cons, Token.relocate_kind, hkind]
    dsimp only
    rw [if_neg hall]
    exact ih h
  | case11 angles t ts h₁ h₂ h₃ h₄ h₅ h₆ ih =>
    rw [Token.relocateAll_cons, classHeritage_of_cons, Token.relocate_kind]
    split
    · exact absurd ‹_› (h₁ _)
    · exact absurd ‹_› h₂
    · exact absurd ‹_› (h₃ _)
    · exact absurd ‹_› h₄
    · exact absurd ‹_› h₅
    · exact absurd ‹_› (h₆ _)
    · exact ih h

theorem className?_relocate (h : c.tokens ≠ []) : className? (c.relocate ρ bs) = className? c := by
  obtain ⟨stop, ts⟩ := c
  cases ts with
  | nil => exact absurd rfl h
  | cons t ts =>
    obtain ⟨kind, span, newline⟩ := t
    cases kind <;> rfl

theorem classRest_relocate {ds : List Decorator} {how : ExportKind} {decl : ClassDecl}
    (h : classRest start ds how c = .ok (decl, c')) :
    classRest (ρ.start start) (ds.map (Decorator.relocate ρ)) how (c.relocate ρ bs) =
      .ok (decl.relocate ρ, c'.relocate ρ bs) := by
  cases classRest_eq_ok h with
  | intro hname hheritage hbody =>
    have hne : c.tokens ≠ [] := by
      intro hnil
      have hlt := classHeritage_length_lt hheritage
      have hle := c.advance_length_le
      rw [hnil, List.length_nil] at hle
      split at hlt
      · omega
      · rw [hnil, List.length_nil] at hlt
        omega
    have hcursor : (if (className? c).isSome then (c.relocate ρ bs).advance else c.relocate ρ bs) =
        (if (className? c).isSome then c.advance else c).relocate ρ bs := by
      rw [Cursor.advance_relocate hne, apply_ite (Cursor.relocate ρ bs)]
    unfold classRest
    rw [className?_relocate hne]
    dsimp only
    rw [if_neg hname, hcursor]
    exact Except.bind_eq_ok_iff.2 ⟨_, classHeritage_relocate hheritage,
      Except.bind_eq_ok_iff.2 ⟨_, skipGroup_relocate hbody, rfl⟩⟩

theorem exported_of_nil {ds : List Decorator} {how : ExportKind} {decl : Option ClassDecl}
    (h : exported start ds how c = .ok (decl, c')) (hts : c.tokens = []) : ds = [] := by
  cases exported_eq_ok h with
  | nothing hds => exact hds
  | skipped hds => exact hds
  | plain hkeyword =>
    rw [hts] at hkeyword
    cases hkeyword

/-- What stands after `export` or `export default`, if something stands there or nothing follows. -/
theorem exported_relocate (hbs : StartLine bs) {ds : List Decorator} {how : ExportKind}
    {decl : Option ClassDecl} (h : exported start ds how c = .ok (decl, c'))
    (hend : c.tokens ≠ [] ∨ bs = []) :
    exported (ρ.start start) (ds.map (Decorator.relocate ρ)) how (c.relocate ρ bs) =
      .ok (decl.map (ClassDecl.relocate ρ), c'.relocate ρ bs) := by
  unfold exported
  rw [Cursor.relocate_tokens]
  cases exported_eq_ok h with
  | plain hkeyword hrest =>
    have hts : c.tokens ≠ [] := by
      intro hts
      rw [hts] at hkeyword
      cases hkeyword
    rw [afterClassKeyword?_relocate hbs hts, hkeyword]
    exact Except.bind_eq_ok_iff.2 ⟨_, classRest_relocate hrest, rfl⟩
  | nothing hds hc =>
    obtain rfl := hend.resolve_left (absurd hc)
    rw [hc, hds]
    rfl
  | skipped hds hkeyword hc hskip =>
    rw [afterClassKeyword?_relocate hbs (hc ▸ List.cons_ne_nil _ _), hkeyword, hc, hds,
      Token.relocateAll_cons]
    exact Except.bind_eq_ok_iff.2 ⟨_, skipStatement_relocate hbs hskip, rfl⟩

theorem eq_of_decorators_nil (h : decorators c = .ok ([], c')) : c' = c := by
  cases hts : c.tokens with
  | nil =>
    rw [decorators_of_nil hts] at h
    cases h
    rfl
  | cons t ts =>
    rw [decorators_of_cons hts] at h
    split at h
    · obtain ⟨⟨d, c₁⟩, -, h⟩ := Except.bind_eq_ok_iff.1 h
      obtain ⟨⟨ds, c₂⟩, -, h⟩ := Except.bind_eq_ok_iff.1 h
      cases h
    · cases h
      rfl

/-- What stands after `export`, if it is not the end of the tokens that others follow. -/
theorem exportRest_relocate (hbs : StartLine bs) {before : List Decorator} {decl : Option ClassDecl}
    (h : exportRest start before c = .ok (decl, c'))
    (hend : before ≠ [] ∨ (if c.atWord "default" then c.advance else c).tokens ≠ [] ∨ bs = []) :
    exportRest (ρ.start start) (before.map (Decorator.relocate ρ)) (c.relocate ρ bs) =
      .ok (decl.map (ClassDecl.relocate ρ), c'.relocate ρ bs) := by
  have hdefault : (c.relocate ρ bs).atWord "default" = c.atWord "default" :=
    Cursor.atWord_relocate hbs (by decide)
  have hcursor : (if c.atWord "default" then (c.relocate ρ bs).advance else c.relocate ρ bs) =
      (if c.atWord "default" then c.advance else c).relocate ρ bs := by
    split
    · exact Cursor.advance_relocate (Cursor.ne_nil_of_atKind ‹_›)
    · rfl
  unfold exportRest at h ⊢
  obtain ⟨⟨own, c₁⟩, h₁, h⟩ := Except.bind_eq_ok_iff.1 h
  have hend₁ : c₁.tokens ≠ [] ∨ bs = [] := by
    by_cases hts : c₁.tokens = []
    · have hds := exported_of_nil h hts
      obtain ⟨rfl, rfl⟩ := List.append_eq_nil_iff.1 hds
      rw [eq_of_decorators_nil h₁] at hts
      exact (hend.resolve_left (absurd rfl)).imp_left (absurd hts)
    · exact .inl hts
  dsimp only
  rw [hdefault, hcursor]
  refine Except.bind_eq_ok_iff.2 ⟨_, decorators_relocate hbs h₁ hend₁, ?_⟩
  dsimp only
  rw [← List.map_append]
  exact exported_relocate hbs h hend₁

theorem ne_nil_of_decoratedRest {ds : List Decorator} {decl : Option ClassDecl}
    (h : decoratedRest ds c = .ok (decl, c')) : c.tokens ≠ [] := by
  cases decoratedRest_eq_ok h with
  | exporting hexport => exact Cursor.ne_nil_of_atKind hexport
  | plain _ hkeyword =>
    intro hts
    rw [hts] at hkeyword
    cases hkeyword

theorem decoratedRest_relocate (hbs : StartLine bs) {d : Decorator} {ds : List Decorator}
    {decl : Option ClassDecl} (h : decoratedRest (d :: ds) c = .ok (decl, c')) :
    decoratedRest ((d :: ds).map (Decorator.relocate ρ)) (c.relocate ρ bs) =
      .ok (decl.map (ClassDecl.relocate ρ), c'.relocate ρ bs) := by
  have hne := ne_nil_of_decoratedRest h
  have hword : (c.relocate ρ bs).atWord "export" = c.atWord "export" :=
    Cursor.atKind_relocate_of_ne_nil hne _
  unfold decoratedRest
  rw [hword, Cursor.relocate_tokens, afterClassKeyword?_relocate hbs hne]
  dsimp only
  cases decoratedRest_eq_ok h with
  | exporting hexport hrest =>
    rw [if_pos hexport, Cursor.advance_relocate hne]
    exact exportRest_relocate hbs hrest (.inl (List.cons_ne_nil d ds))
  | plain hexport hkeyword hrest =>
    rw [if_neg hexport, hkeyword]
    exact Except.bind_eq_ok_iff.2 ⟨_, classRest_relocate hrest, rfl⟩

end JobBundler
