import JobBundler.Proofs.Outline.Passes

/-!
# What is read as an import

The names that an import declaration binds are words of the source, and its attributes reach over the
tokens up to a closing bracket (`importRest_isReadFrom`).
-/

namespace JobBundler

variable {c c' : Cursor} {ts us : List Token}

/-! ## Groups -/

theorem skipGroup_eq_ok {inner : Nat} (h : skipGroup inner ts = .ok c) :
    ∃ gs t b, ts = gs ++ t :: c.tokens ∧ t.kind = .closing b ∧ c.lastStop = t.span.stop := by
  fun_induction skipGroup inner ts with
  | case1 => cases h
  | case2 t ts _ _ _ ih | case4 t ts _ _ _ ih | case5 t ts _ _ _ _ ih =>
    obtain ⟨gs, u, b, rfl, hu⟩ := ih h
    exact ⟨t :: gs, u, b, rfl, hu⟩
  | case3 t ts b ht =>
    cases h
    exact ⟨[], t, b, rfl, ht, rfl⟩

/-- Where a group ends is told by the kinds of its tokens. -/
theorem skipGroup_of_kinds {inner : Nat} {gs gs' : List Token} {t t' : Token}
    (h : skipGroup inner (gs ++ t :: ts) = .ok (.past t ts))
    (hgs : gs'.map (·.kind) = gs.map (·.kind)) (ht : t'.kind = t.kind) (us : List Token) :
    skipGroup inner (gs' ++ t' :: us) = .ok (.past t' us) := by
  induction gs generalizing inner gs' with
  | nil =>
    obtain rfl := List.map_eq_nil_iff.1 hgs
    have hlt (inner : Nat) : skipGroup inner ts ≠ .ok (.past t ts) :=
      fun h => Nat.lt_irrefl ts.length (skipGroup_length_lt h :)
    rw [List.nil_append] at h ⊢
    unfold skipGroup at h ⊢
    simp only [ht]
    split at h
    · exact absurd h (hlt _)
    · rfl
    · exact absurd h (hlt _)
    · exact absurd h (hlt _)
  | cons g gs ih =>
    obtain ⟨g', gs', rfl, hg, hgs⟩ := List.map_eq_cons_iff.1 hgs
    rw [List.cons_append] at h ⊢
    unfold skipGroup at h ⊢
    simp only [hg]
    split at h
    · exact ih h hgs
    · have htokens : gs ++ t :: ts = ts := congrArg Cursor.tokens (Except.ok.inj h)
      have := congrArg List.length htokens
      simp only [List.length_append, List.length_cons] at this
      omega
    · exact ih h hgs
    · exact ih h hgs

/-! ## Names -/

/-- The name is a word among the tokens. -/
def IsWordOf (ts : List Token) (name : String) : Prop :=
  ∃ t ∈ ts, t.kind = .ident name

theorem IsWordOf.of_suffix {name : String} (h : IsWordOf us name) (hs : us <:+ ts) :
    IsWordOf ts name := by
  obtain ⟨t, ht, hk⟩ := h
  exact ⟨t, hs.mem ht, hk⟩

theorem isWordOf_of_eq_cons {name : String} {span : Span} {newline : Bool}
    (h : ts = ⟨.ident name, span, newline⟩ :: us) : IsWordOf ts name :=
  ⟨_, h ▸ List.mem_cons_self, rfl⟩

theorem Cursor.isWordOf_of_expectName {expected : Expectation} {name : String}
    (h : c.expectName expected = .ok (name, c')) : IsWordOf c.tokens name := by
  unfold expectName at h
  split at h
  · rename_i ht
    cases h
    exact isWordOf_of_eq_cons ht
  · cases h

theorem typeModifier?_passes {modifies : TokenKind → Bool}
    (h : typeModifier? modifies c = some c') (n : Nat) : Passes n c.tokens n c'.tokens := by
  unfold typeModifier? at h
  split at h
  · rename_i t u us ht
    split at h <;> cases h
    rename_i hmodifies
    rw [Bool.and_eq_true] at hmodifies
    rw [ht]
    exact .other (Token.isOpening_of_isWord hmodifies.1) .refl
  · cases h

theorem modified_passes (modifies : TokenKind → Bool) (c : Cursor) (n : Nat) :
    Passes n c.tokens n ((typeModifier? modifies c).getD c).tokens := by
  cases h : typeModifier? modifies c with
  | none => exact .refl
  | some c₁ => exact typeModifier?_passes h n

theorem importSpecifier_isReadFrom {i : NamedImport} (h : importSpecifier c = .ok (i, c')) :
    (∀ n, Passes n c.tokens n c'.tokens) ∧ IsWordOf c.tokens i.binding := by
  have hm := modified_passes marksSpecifier c
  have hread := importSpecifier_eq_ok h
  generalize (typeModifier? marksSpecifier c).getD c = c₁ at hread hm
  cases hread with
  | renamed hc has hbinding =>
    have hword (n : Nat) := ((hm n).trans (Cursor.advance_passes hc rfl n)).trans
      (Cursor.advance_passes_of_atKind has rfl n)
    exact ⟨fun n => (hword n).trans (Cursor.expectName_passes hbinding n),
      (Cursor.isWordOf_of_expectName hbinding).of_suffix (hword 0).suffix⟩
  | plain hc =>
    exact ⟨fun n => (hm n).trans (Cursor.advance_passes hc rfl n),
      (isWordOf_of_eq_cons hc).of_suffix (hm 0).suffix⟩
  | string hc has hbinding =>
    have hword (n : Nat) :=
      ((hm n).trans (Cursor.advance_passes hc rfl n)).trans (Cursor.expectWord_passes has n)
    exact ⟨fun n => (hword n).trans (Cursor.expectName_passes hbinding n),
      (Cursor.isWordOf_of_expectName hbinding).of_suffix (hword 0).suffix⟩

theorem importSpecifiers_isReadFrom {is : List NamedImport} (h : importSpecifiers c = .ok (is, c')) :
    (∀ n, Passes (n + 1) c.tokens n c'.tokens) ∧ ∀ i ∈ is, IsWordOf c.tokens i.binding := by
  fun_induction importSpecifiers c generalizing is c' with
  | case1 c hclose =>
    cases h
    exact ⟨Cursor.advance_closes hclose, by simp⟩
  | case2 | case5 => cases h
  | case3 c _ i c₁ hi hcomma ih =>
    obtain ⟨⟨is', c₂⟩, h₂, h⟩ := Except.bind_eq_ok_iff.1 h
    cases h
    obtain ⟨hp, hb⟩ := importSpecifier_isReadFrom hi
    obtain ⟨hp', hbs⟩ := ih h₂
    have hadv (n : Nat) := (hp n).trans (Cursor.advance_passes_of_atKind hcomma rfl n)
    refine ⟨fun n => (hadv (n + 1)).trans (hp' n), fun j hj => ?_⟩
    rcases List.mem_cons.1 hj with rfl | hj
    · exact hb
    · exact (hbs j hj).of_suffix (hadv 0).suffix
  | case4 c _ i c₁ hi _ hclose =>
    cases h
    obtain ⟨hp, hb⟩ := importSpecifier_isReadFrom hi
    refine ⟨fun n => (hp (n + 1)).trans (Cursor.advance_closes hclose n), fun j hj => ?_⟩
    obtain rfl := List.mem_singleton.1 hj
    exact hb

/-! ## Clauses -/

/-- The clause binds words of the tokens, and has no namespace besides names in braces. -/
structure ImportClause.IsReadFrom (clause : ImportClause) (ts : List Token) : Prop where
  defaultBinding : ∀ name, clause.defaultBinding = some name → ts.head?.map (·.kind) = some (.ident name)
  namespaceBinding : ∀ name, clause.namespaceBinding = some name → IsWordOf ts name
  named : ∀ n ∈ clause.named, IsWordOf ts n.binding
  alone : clause.namespaceBinding = none ∨ clause.named = []

theorem innerClause_isReadFrom {name : Option String} {clause : ImportClause}
    (h : innerClause name c = .ok (clause, c')) :
    (∀ n, Passes n c.tokens n c'.tokens) ∧ clause.defaultBinding = name ∧
      (∀ ns, clause.namespaceBinding = some ns → IsWordOf c.tokens ns) ∧
      (∀ n ∈ clause.named, IsWordOf c.tokens n.binding) ∧
      (clause.namespaceBinding = none ∨ clause.named = []) := by
  cases innerClause_eq_ok h with
  | space hstar has hspace hfrom =>
    have hp (n : Nat) :=
      (Cursor.advance_passes_of_atKind hstar rfl n).trans (Cursor.expectWord_passes has n)
    refine ⟨fun n => ((hp n).trans (Cursor.expectName_passes hspace n)).trans
      (Cursor.expectWord_passes hfrom n), rfl, ?_, by simp, .inr rfl⟩
    rintro _ ⟨⟩
    exact (Cursor.isWordOf_of_expectName hspace).of_suffix (hp 0).suffix
  | named _ hbrace hnamed hfrom =>
    obtain ⟨hp, hwords⟩ := importSpecifiers_isReadFrom hnamed
    refine ⟨fun n => ((Cursor.advance_opens hbrace n).trans (hp n)).trans
      (Cursor.expectWord_passes hfrom n), rfl, ?_, ?_, .inl rfl⟩
    · rintro _ ⟨⟩
    · exact fun n hn => (hwords n hn).of_suffix c.advance_suffix

theorem importClause_passes {clause : Option ImportClause}
    (h : importClause c = .ok (clause, c')) (n : Nat) : Passes n c.tokens n c'.tokens := by
  cases importClause_eq_ok h with
  | absent => exact .refl
  | assignment hc hskip =>
    rw [hc]
    exact .other rfl (skipStatement_passes hskip n)
  | both hc _ hcomma hinner =>
    exact ((Cursor.advance_passes hc rfl n).trans
      (Cursor.advance_passes_of_atKind hcomma rfl n)).trans ((innerClause_isReadFrom hinner).1 n)
  | default hc _ _ hfrom =>
    exact (Cursor.advance_passes hc rfl n).trans (Cursor.expectWord_passes hfrom n)
  | inner hinner => exact (innerClause_isReadFrom hinner).1 n

theorem importClause_isReadFrom {clause : ImportClause}
    (h : importClause c = .ok (some clause, c')) : clause.IsReadFrom c.tokens := by
  cases importClause_eq_ok h with
  | absent => exact ⟨by rintro _ ⟨⟩, by rintro _ ⟨⟩, by simp, .inl rfl⟩
  | both hc _ _ hinner =>
    obtain ⟨-, hdefault, hspace, hnamed, halone⟩ := innerClause_isReadFrom hinner
    have hadv := c.advance.advance_suffix.trans c.advance_suffix
    refine ⟨?_, fun ns h => (hspace ns h).of_suffix hadv,
      fun n hn => (hnamed n hn).of_suffix hadv, halone⟩
    intro n hn
    rw [hdefault] at hn
    cases hn
    rw [hc]
    rfl
  | default hc =>
    refine ⟨?_, by rintro _ ⟨⟩, by simp, .inl rfl⟩
    rintro _ ⟨⟩
    rw [hc]
    rfl
  | inner hinner =>
    obtain ⟨-, hdefault, hspace, hnamed, halone⟩ := innerClause_isReadFrom hinner
    refine ⟨fun n hn => ?_, hspace, hnamed, halone⟩
    rw [hdefault] at hn
    cases hn

/-! ## Declarations -/

/-- The attributes reach from the word `with` or `assert` over the group after it. -/
def IsAttributesOf (span : Span) (ts : List Token) : Prop :=
  ∃ w b gs t k us, w :: b :: (gs ++ t :: us) <:+ ts ∧ (w.isWord "with" ∨ w.isWord "assert") ∧
    b.kind = .opening .brace ∧ t.kind = .closing k ∧
    skipGroup 0 (gs ++ t :: us) = .ok (.past t us) ∧ span = ⟨w.span.start, t.span.stop⟩

theorem IsAttributesOf.of_suffix {span : Span} (h : IsAttributesOf span us) (hs : us <:+ ts) :
    IsAttributesOf span ts := by
  obtain ⟨w, b, gs, t, k, vs, hvs, h⟩ := h
  exact ⟨w, b, gs, t, k, vs, hvs.trans hs, h⟩

theorem isOpening_of_attributesWord {t : Token} (h : t.isWord "with" || t.isWord "assert") :
    t.kind.isOpening = false := by
  rw [Bool.or_eq_true] at h
  exact h.elim Token.isOpening_of_isWord Token.isOpening_of_isWord

theorem importAttributes_eq_ok {a : Option Span} (h : importAttributes c = .ok (a, c')) :
    (∀ n, Passes n c.tokens n c'.tokens) ∧ ∀ span, a = some span → IsAttributesOf span c.tokens := by
  unfold importAttributes at h
  split at h
  · rename_i w span newline ts ht
    split at h
    · rename_i hw
      obtain ⟨c₁, h₁, h⟩ := Except.bind_eq_ok_iff.1 h
      cases h
      obtain ⟨gs, t, k, hgs, hkind, hstop⟩ := skipGroup_eq_ok h₁
      have hp := skipGroup_passes h₁
      have hc : c' = .past t c'.tokens := by
        rw [Cursor.past, ← hstop]
      rw [hgs, hc] at h₁
      rw [ht]
      refine ⟨fun n => .other (isOpening_of_attributesWord hw) (.opens rfl (hp n)), ?_⟩
      rintro _ ⟨⟩
      refine ⟨w, ⟨.opening .brace, span, newline⟩, gs, t, k, c'.tokens, ?_, by simpa using hw, rfl,
        hkind, h₁, by rw [hstop]⟩
      rw [hgs]
    · cases h
      exact ⟨fun n => .refl, by rintro _ ⟨⟩⟩
  · cases h
    exact ⟨fun n => .refl, by rintro _ ⟨⟩⟩

/-- What is known of a declaration that was read from these tokens. -/
structure ImportDecl.IsReadFrom (d : ImportDecl) (ts : List Token) : Prop where
  bindings : ∀ b ∈ d.bindings, IsWordOf ts b
  alone : d.namespaceBinding = none ∨ d.named = []
  /-- `import type from` is no type-only import of `from`. -/
  notFrom : d.typeOnly → d.defaultBinding ≠ some "from"
  attributes : ∀ span, d.attributes = some span → IsAttributesOf span ts

theorem importTail_eq_ok {start : Nat} {typeOnly : Bool} {clause : ImportClause} {d : ImportDecl}
    (h : importTail start typeOnly clause c = .ok (d, c')) :
    (∀ n, Passes n c.tokens n c'.tokens) ∧ d.typeOnly = typeOnly ∧ d.defaultBinding = clause.defaultBinding ∧
      d.namespaceBinding = clause.namespaceBinding ∧ d.named = clause.named ∧
      ∀ span, d.attributes = some span → IsAttributesOf span c.tokens := by
  unfold importTail at h
  obtain ⟨⟨specifier, c₁⟩, h₁, h⟩ := Except.bind_eq_ok_iff.1 h
  obtain ⟨⟨attributes, c₂⟩, h₂, h⟩ := Except.bind_eq_ok_iff.1 h
  cases h
  obtain ⟨hp, hattributes⟩ := importAttributes_eq_ok h₂
  have hp₁ := Cursor.expectString_passes h₁
  exact ⟨fun n => ((hp₁ n).trans (hp n)).trans (Cursor.skipKind_passes rfl c₂ n), rfl, rfl, rfl, rfl,
    fun span h => (hattributes span h).of_suffix (hp₁ 0).suffix⟩

theorem typeModifier?_eq_some {modifies : TokenKind → Bool}
    (h : typeModifier? modifies c = some c') :
    ∃ u us, c'.tokens = u :: us ∧ modifies u.kind := by
  unfold typeModifier? at h
  split at h
  · rename_i t u us ht
    split at h
    · rename_i hm
      cases h
      rw [Bool.and_eq_true] at hm
      exact ⟨u, us, rfl, hm.2⟩
    · cases h
  · cases h

theorem importRest_passes {start : Nat} {decl : Option ImportDecl}
    (h : importRest start c = .ok (decl, c')) (n : Nat) : Passes n c.tokens n c'.tokens := by
  have hmodified := modified_passes marksDeclaration c n
  cases importRest_eq_ok h with
  | assignment hclause => exact hmodified.trans (importClause_passes hclause n)
  | declaration hclause htail =>
    exact (hmodified.trans (importClause_passes hclause n)).trans ((importTail_eq_ok htail).1 n)

theorem importRest_isReadFrom {start : Nat} {d : ImportDecl}
    (h : importRest start c = .ok (some d, c')) : d.IsReadFrom c.tokens := by
  have hmod := (modified_passes marksDeclaration c 0).suffix
  cases importRest_eq_ok h with
  | @declaration clause _ c₁ _ hclause htail =>
    have hs := (importClause_passes hclause 0).suffix
    have hread := importClause_isReadFrom hclause
    obtain ⟨-, htype, hdefault, hspace, hnamed, hattributes⟩ := importTail_eq_ok htail
    refine ⟨fun b hb => ?_, ?_, fun ht hd => ?_, fun span h => ?_⟩
    · rw [ImportDecl.bindings, hdefault, hspace, hnamed, List.mem_append, List.mem_append] at hb
      rcases hb with (hb | hb) | hb
      · have hhead := hread.defaultBinding b (by simpa using hb)
        obtain ⟨t, ht, hk⟩ := Option.map_eq_some_iff.1 hhead
        exact IsWordOf.of_suffix ⟨t, List.mem_of_head? ht, hk⟩ hmod
      · exact (hread.namespaceBinding b (by simpa using hb)).of_suffix hmod
      · obtain ⟨n, hn, rfl⟩ := List.mem_map.1 hb
        exact (hread.named n hn).of_suffix hmod
    · rw [hspace, hnamed]
      exact hread.alone
    · -- What follows the modifier `type` marks a declaration, which the word `from` does not.
      obtain ⟨c₂, hc₂⟩ := Option.isSome_iff_exists.1 (htype ▸ ht)
      obtain ⟨u, us, hus, hmarks⟩ := typeModifier?_eq_some hc₂
      have hhead := hread.defaultBinding "from" (hdefault ▸ hd)
      rw [hc₂, Option.getD_some, hus, List.head?_cons, Option.map_some, Option.some.injEq] at hhead
      rw [hhead] at hmarks
      exact absurd hmarks (by decide)
    · exact (hattributes span h).of_suffix (hs.trans hmod)

/-- As many brackets are closed in a statement as are opened. -/
theorem item_passes {t : Token} {i : Option Item} (h : item t ts = .ok (i, c)) (n : Nat) :
    Passes n (t :: ts) n c.tokens := by
  cases item_eq_ok h with
  | empty ht => exact .other (by rw [ht]; rfl) .refl
  | decorated ht hfirst hmore hrest =>
    exact .other (by rw [ht]; rfl)
      (((decorator_passes hfirst n).trans (decorators_passes hmore n)).trans
        (decoratedRest_passes hrest n))
  | importing ht _ hrest => exact .other (Token.isOpening_of_isWord ht) (importRest_passes hrest n)
  | exporting ht hrest => exact .other (Token.isOpening_of_isWord ht) (exportRest_passes hrest n)
  | plain hkeyword hrest =>
    exact (afterClassKeyword?_passes hkeyword n).trans (classRest_passes hrest n)
  | skipped hskip => exact skipStatement_passes hskip n

theorem item_eq_importDecl {t : Token} {d : ImportDecl}
    (h : item t ts = .ok (some (.importDecl d), c)) :
    importRest t.span.start (.past t ts) = .ok (some d, c) := by
  cases item_eq_ok h with
  | importing _ _ hrest hi =>
    obtain ⟨d', rfl, hd⟩ := Option.map_eq_some_iff.1 hi
    cases hd
    exact hrest
  | decorated _ _ _ _ hi | exporting _ _ hi =>
    obtain ⟨d', -, hd⟩ := Option.map_eq_some_iff.1 hi
    cases hd

/-- Each import of an outline is read at some place among the tokens. -/
theorem Outline.exists_of_mem_imports {o : Outline} (h : ofTokens ts = .ok o) {d : ImportDecl}
    (hd : d ∈ o.imports) : ∃ t us, t :: us <:+ ts ∧ d.IsReadFrom us := by
  fun_induction ofTokens ts generalizing o with
  | case1 =>
    cases h
    cases hd
  | case2 => cases h
  | case3 t ts i c hi ih =>
    obtain ⟨o', ho', h⟩ := Except.bind_eq_ok_iff.1 h
    cases h
    have hlater (hd : d ∈ o'.imports) : ∃ u us, u :: us <:+ t :: ts ∧ d.IsReadFrom us := by
      obtain ⟨u, us, hs, hr⟩ := ih ho' hd
      exact ⟨u, us, hs.trans (item_passes hi 0).suffix, hr⟩
    rcases i with _ | d' | _
    · exact hlater hd
    · rcases List.mem_cons.1 hd with rfl | hd
      · exact ⟨t, ts, List.suffix_rfl, importRest_isReadFrom (item_eq_importDecl hi)⟩
      · exact hlater hd
    · exact hlater hd

theorem Outline.ofSource_eq_ok_iff {source : String} {o : Outline} :
    ofSource source = .ok o ↔
      ∃ y, Lexing.ofSource source.toList = .ok y ∧ ofTokens (Token.place 0 y.lexemes) = .ok o := by
  unfold ofSource tokenize
  cases Lexing.ofSource source.toList <;> simp

end JobBundler
