import JobBundler.Proofs.Entry.ImportSpecifiers

/-!
# Reading reduced imports

The tokens of a printed import are read as the declaration that it was printed of, if its specifiers
are readable, and else not at all. What stands after the module specifier is left open.
-/

namespace JobBundler

open Lexeme

variable {c c' : Cursor} {k : TokenKind} {ks : List TokenKind}

/-! ## Clauses -/

namespace ImportDecl

variable {d : ImportDecl}

/-- What the declaration binds. -/
def clause (d : ImportDecl) : ImportClause :=
  ⟨d.defaultBinding, d.namespaceBinding, d.named⟩

/-- The kinds of the tokens of a namespace or of names between braces. -/
def innerKinds (d : ImportDecl) : List TokenKind :=
  match d.namespaceBinding with
  | some name => [.star, .ident "as", .ident name]
  | none => .opening .brace :: NamedImport.listKinds d.named

theorem map_kind_innerLexemes (d : ImportDecl) : d.innerLexemes.map (·.kind) = d.innerKinds := by
  unfold innerLexemes innerKinds NamedImport.listKinds
  cases d.namespaceBinding with
  | some name => rfl
  | none => exact congrArg (_ :: ·) List.map_append

/-- The kinds of the tokens of what an import binds. -/
def clauseKinds (d : ImportDecl) : List TokenKind :=
  match d.defaultBinding with
  | some name =>
    if d.namespaceBinding = none ∧ d.named = [] then [.ident name]
    else .ident name :: .comma :: d.innerKinds
  | none => d.innerKinds

theorem map_kind_clauseLexemes (d : ImportDecl) :
    d.clauseLexemes.map (·.kind) = d.clauseKinds := by
  unfold clauseLexemes clauseKinds
  cases d.defaultBinding with
  | some name =>
    simp only
    split
    · rfl
    · rw [List.map_cons, List.map_cons, map_kind_innerLexemes]
      rfl
  | none => exact d.map_kind_innerLexemes

theorem innerClause_of_isReadable (halone : d.namespaceBinding = none ∨ d.named = [])
    (h : c.Shows (d.innerKinds ++ .ident "from" :: ks)) (hn : ∀ n ∈ d.named, n.IsReadable)
    (name : Option String) :
    ∃ c', innerClause name c = .ok (⟨name, d.namespaceBinding, d.named⟩, c') ∧ c'.Shows ks := by
  unfold innerKinds at h
  unfold innerClause
  cases hspace : d.namespaceBinding with
  | some space =>
    rw [hspace] at h
    dsimp only [List.cons_append, List.nil_append] at h
    rw [halone.resolve_left (by simp [hspace]), h.atKind_eq,
      if_pos (beq_self_eq_true _), h.advance.expectWord_eq]
    simp only [bind, Except.bind]
    rw [h.advance.advance.expectName_eq]
    simp only
    rw [h.advance.advance.advance.expectWord_eq]
    exact ⟨_, rfl, h.advance.advance.advance.advance⟩
  | none =>
    rw [hspace] at h
    dsimp only [List.cons_append] at h
    rw [h.atKind_eq, h.atKind_eq, if_neg (by decide), if_pos (beq_self_eq_true _)]
    obtain ⟨c₁, h₁, hfrom⟩ := NamedImport.importSpecifiers_of_isReadable h.advance hn
    rw [h₁]
    simp only [bind, Except.bind]
    rw [hfrom.expectWord_eq]
    exact ⟨_, rfl, hfrom.advance⟩

theorem isReadable_of_innerClause (halone : d.namespaceBinding = none ∨ d.named = [])
    (h : c.Shows (d.innerKinds ++ ks)) {name : Option String} {clause : ImportClause}
    (hc : innerClause name c = .ok (clause, c')) : ∀ n ∈ d.named, n.IsReadable := by
  unfold innerKinds at h
  unfold innerClause at hc
  cases hspace : d.namespaceBinding with
  | some space =>
    rw [halone.resolve_left (by simp [hspace])]
    simp
  | none =>
    rw [hspace] at h
    dsimp only [List.cons_append] at h
    rw [h.atKind_eq, h.atKind_eq, if_neg (by decide), if_pos (beq_self_eq_true _)] at hc
    obtain ⟨⟨ns, c₁⟩, h₁, -⟩ := Except.bind_eq_ok_iff.1 hc
    exact NamedImport.isReadable_of_importSpecifiers h.advance h₁

theorem importClause_of_inner (hk : k = .star ∨ k = .opening .brace) (h : c.Shows (k :: ks)) :
    importClause c = innerClause none c >>= fun x => .ok (some x.1, x.2) := by
  obtain ⟨span, newline, ts, ht, -⟩ := h.exists_eq
  unfold importClause
  rw [ht]
  rcases hk with rfl | rfl <;> rfl

theorem importClause_of_name {name : String} (hk : k = .comma ∨ k = .ident "from")
    (h : c.Shows (.ident name :: k :: ks)) :
    importClause c =
      if k = .comma then innerClause (some name) c.advance.advance >>= fun x => .ok (some x.1, x.2)
      else .ok (some ⟨some name, none, []⟩, c.advance.advance) := by
  obtain ⟨span, newline, ts, ht, h⟩ := h.exists_eq
  have hadvance : c.advance = .past ⟨.ident name, span, newline⟩ ts := by
    rw [Cursor.advance, ht]
  obtain ⟨span', newline', ts', ht', -⟩ := h.exists_eq
  obtain rfl : ts = ⟨k, span', newline'⟩ :: ts' := by
    rw [hadvance] at ht'
    exact ht'
  unfold importClause
  rw [ht]
  rcases hk with rfl | rfl
  · simp only
    rw [h.atKind_eq, if_pos (beq_self_eq_true _), if_pos trivial]
    rfl
  · simp only
    rw [h.atKind_eq, if_neg (by simp), h.expectWord_eq, if_neg (by simp)]
    rfl

/-- A clause starts with a name before a comma or the word `from`, or with a star or a brace. -/
theorem clauseKinds_cases (d : ImportDecl) (ks : List TokenKind) :
    (∃ name k ks', d.defaultBinding = some name ∧
      d.clauseKinds ++ .ident "from" :: ks = .ident name :: k :: ks' ∧
      (k = .comma ∧ ks' = d.innerKinds ++ .ident "from" :: ks ∨
        k = .ident "from" ∧ ks' = ks ∧ d.namespaceBinding = none ∧ d.named = [])) ∨
    d.defaultBinding = none ∧ d.clauseKinds = d.innerKinds := by
  unfold clauseKinds
  cases d.defaultBinding with
  | none => exact .inr ⟨rfl, rfl⟩
  | some name =>
    refine .inl ?_
    dsimp only
    split
    · rename_i h
      exact ⟨name, _, _, rfl, rfl, .inr ⟨rfl, rfl, h⟩⟩
    · exact ⟨name, _, _, rfl, rfl, .inl ⟨rfl, rfl⟩⟩

theorem innerKinds_eq_cons (d : ImportDecl) :
    ∃ k ks, d.innerKinds = k :: ks ∧ (k = .star ∨ k = .opening .brace) := by
  unfold innerKinds
  cases d.namespaceBinding with
  | some name => exact ⟨_, _, rfl, .inl rfl⟩
  | none => exact ⟨_, _, rfl, .inr rfl⟩

/-- A clause is read by its names between braces. -/
theorem importClause_eq_of_shows (h : c.Shows (d.clauseKinds ++ .ident "from" :: ks)) :
    (∃ c₁, c₁.Shows (d.innerKinds ++ .ident "from" :: ks) ∧
      importClause c = innerClause d.defaultBinding c₁ >>= fun x => .ok (some x.1, x.2)) ∨
    (d.named = [] ∧ ∃ c', importClause c = .ok (some d.clause, c') ∧ c'.Shows ks) := by
  rcases d.clauseKinds_cases ks with ⟨name, k, ks', hname, hks, hk⟩ | ⟨hnone, hks⟩
  · rw [hks] at h
    rcases hk with ⟨rfl, rfl⟩ | ⟨rfl, rfl, hspace, hnamed⟩
    · rw [importClause_of_name (.inl rfl) h, if_pos rfl, hname]
      exact .inl ⟨_, h.advance.advance, rfl⟩
    · rw [importClause_of_name (.inr rfl) h, if_neg (by simp), clause, hname, hspace, hnamed]
      exact .inr ⟨rfl, _, rfl, h.advance.advance⟩
  · rw [hks] at h
    refine .inl ⟨c, h, ?_⟩
    obtain ⟨k, ks', heq, hk⟩ := d.innerKinds_eq_cons
    rw [heq] at h
    rw [hnone]
    exact importClause_of_inner hk h

theorem importClause_of_isReadable (halone : d.namespaceBinding = none ∨ d.named = [])
    (h : c.Shows (d.clauseKinds ++ .ident "from" :: ks)) (hn : ∀ n ∈ d.named, n.IsReadable) :
    ∃ c', importClause c = .ok (some d.clause, c') ∧ c'.Shows ks := by
  rcases importClause_eq_of_shows h with ⟨c₁, h₁, heq⟩ | ⟨-, h⟩
  · obtain ⟨c₂, h₂, hshows⟩ := innerClause_of_isReadable halone h₁ hn d.defaultBinding
    rw [heq, h₂]
    exact ⟨c₂, rfl, hshows⟩
  · exact h

theorem isReadable_of_importClause (halone : d.namespaceBinding = none ∨ d.named = [])
    (h : c.Shows (d.clauseKinds ++ .ident "from" :: ks)) {clause : Option ImportClause}
    (hc : importClause c = .ok (clause, c')) : ∀ n ∈ d.named, n.IsReadable := by
  rcases importClause_eq_of_shows h with ⟨c₁, h₁, heq⟩ | ⟨hnamed, -⟩
  · rw [heq] at hc
    obtain ⟨x, hx, -⟩ := Except.bind_eq_ok_iff.1 hc
    exact isReadable_of_innerClause halone h₁ hx
  · simp [hnamed]

end ImportDecl

/-! ## Declarations -/

namespace ImportDecl

variable {d : ImportDecl}

/-- The kinds of the tokens of an import after its first word, up to the module specifier. -/
def restKinds (d : ImportDecl) : List TokenKind :=
  (if d.typeOnly then [.ident "type"] else []) ++ (d.clauseKinds ++ [.ident "from"])

/-- The cursor after the word `type` of a declaration. -/
theorem typeModifier?_of_shows (hfrom : d.typeOnly → d.defaultBinding ≠ some "from")
    (h : c.Shows (d.restKinds ++ ks)) :
    (typeModifier? marksDeclaration c).isSome = d.typeOnly ∧
      ((typeModifier? marksDeclaration c).getD c).Shows
        (d.clauseKinds ++ .ident "from" :: ks) := by
  unfold restKinds at h
  rw [List.append_assoc, List.append_assoc, List.singleton_append] at h
  obtain ⟨k₁, ks₁, hks₁, hk₁⟩ := d.innerKinds_eq_cons
  by_cases ht : d.typeOnly
  · rw [if_pos ht, List.singleton_append] at h
    have hsome : typeModifier? marksDeclaration c = some c.advance := by
      rcases d.clauseKinds_cases ks with ⟨name, k, ks', hname, hks, -⟩ | ⟨-, hks⟩
      · rw [hks] at h
        have hne : name ≠ "from" := fun heq => hfrom ht (heq ▸ hname)
        rw [h.typeModifier?_eq, if_pos ⟨rfl, bne_iff_ne.2 hne⟩]
      · rw [hks, hks₁] at h
        rw [h.typeModifier?_eq, if_pos ⟨rfl, by rcases hk₁ with rfl | rfl <;> rfl⟩]
    rw [hsome]
    exact ⟨ht.symm, h.advance⟩
  · rw [if_neg ht, List.nil_append] at h
    have hnone : typeModifier? marksDeclaration c = none := by
      rcases d.clauseKinds_cases ks with ⟨name, k, ks', -, hks, hk⟩ | ⟨-, hks⟩
      · rw [hks] at h
        rw [h.typeModifier?_eq, if_neg]
        rintro ⟨-, hmarks⟩
        rcases hk with ⟨rfl, -⟩ | ⟨rfl, -⟩ <;> exact absurd hmarks (by decide)
      · rw [hks, hks₁] at h
        cases ks₁ with
        | nil =>
          rw [h.typeModifier?_eq, if_neg]
          rcases hk₁ with rfl | rfl <;> simp
        | cons k₂ ks₂ =>
          rw [List.cons_append, List.cons_append] at h
          rw [h.typeModifier?_eq, if_neg]
          rcases hk₁ with rfl | rfl <;> simp
    rw [hnone]
    exact ⟨by simpa using ht, h⟩

/-- The declaration from another module, and with what else is not bound. -/
def withSource (d : ImportDecl) (specifier : String) (attributes : Option Span) (span : Span) :
    ImportDecl :=
  { d with specifier, attributes, span }

theorem importTail_of_shows (start : Nat) {typeOnly : Bool} {specifier : String} {a : Option Span}
    {ms : List TokenKind} (h : c.Shows (.str specifier :: ks))
    (ha : importAttributes c.advance = .ok (a, c')) (hc' : c'.Shows (.semicolon :: ms)) (ht : d.typeOnly = typeOnly) :
    ∃ span, importTail start typeOnly d.clause c =
      .ok (d.withSource specifier a span, c'.advance) := by
  obtain ⟨span, newline, ts, heq, -⟩ := h.exists_eq
  subst ht
  unfold importTail
  have hstring : c.expectString .moduleSpecifier = .ok (specifier, c.advance) := by
    unfold Cursor.expectString
    rw [heq]
  have hskip : c'.skipKind .semicolon = c'.advance := by
    rw [Cursor.skipKind, hc'.atKind_eq, if_pos (beq_self_eq_true _)]
  rw [hstring]
  simp only [bind, Except.bind]
  rw [ha]
  simp only
  rw [hskip]
  exact ⟨_, rfl⟩

/-- An import with readable names is read up to the module specifier, where `c₁` stands. -/
theorem importRest_of_isReadable (start : Nat) (halone : d.namespaceBinding = none ∨ d.named = [])
    (hfrom : d.typeOnly → d.defaultBinding ≠ some "from") (hn : ∀ n ∈ d.named, n.IsReadable)
    (h : c.Shows (d.restKinds ++ ks)) :
    ∃ c₁, c₁.Shows ks ∧ c₁.tokens <:+ c.tokens ∧
      importRest start c =
        importTail start d.typeOnly d.clause c₁ >>= fun x => .ok (some x.1, x.2) := by
  obtain ⟨htype, hshows⟩ := typeModifier?_of_shows hfrom h
  obtain ⟨c₁, h₁, hc₁⟩ := importClause_of_isReadable halone hshows hn
  refine ⟨c₁, hc₁, ((modified_passes marksDeclaration c 0).trans (importClause_passes h₁ 0)).suffix, ?_⟩
  unfold importRest
  dsimp only
  rw [h₁, htype]
  rfl

theorem isReadable_of_importRest {start : Nat} (halone : d.namespaceBinding = none ∨ d.named = [])
    (hfrom : d.typeOnly → d.defaultBinding ≠ some "from") (h : c.Shows (d.restKinds ++ ks))
    {x : Option ImportDecl × Cursor} (hx : importRest start c = .ok x) :
    ∀ n ∈ d.named, n.IsReadable := by
  obtain ⟨-, hshows⟩ := typeModifier?_of_shows hfrom h
  unfold importRest at hx
  obtain ⟨⟨clause, c₁⟩, h₁, -⟩ := Except.bind_eq_ok_iff.1 hx
  exact isReadable_of_importClause halone hshows h₁

theorem isImportDeclaration_of_restKinds {ts : List Token}
    (h : ts.map (·.kind) = d.restKinds ++ ks) : isImportDeclaration ts := by
  have hhead : ∃ k ks', d.restKinds ++ ks = k :: ks' ∧ k ≠ .opening .paren ∧ k ≠ .dot := by
    unfold restKinds
    obtain ⟨k₁, ks₁, hks₁, hk₁⟩ := d.innerKinds_eq_cons
    split
    · exact ⟨_, _, rfl, by simp, by simp⟩
    · rcases d.clauseKinds_cases ks with ⟨name, k, ks', -, hks, -⟩ | ⟨-, hks⟩
      · rw [List.nil_append, List.append_assoc, List.singleton_append, hks]
        exact ⟨_, _, rfl, by simp, by simp⟩
      · rw [hks, hks₁]
        refine ⟨_, _, rfl, ?_⟩
        rcases hk₁ with rfl | rfl <;> simp
  obtain ⟨k, ks', heq, hparen, hdot⟩ := hhead
  rw [heq] at h
  obtain ⟨t, us, rfl, rfl, -⟩ := List.map_eq_cons_iff.1 h
  simp [isImportDeclaration, hparen, hdot]

end ImportDecl

/-! ## Outlines of one import -/

namespace Outline

theorem item_of_import {t : Token} {ts : List Token} (ht : t.kind = .ident "import")
    (hts : isImportDeclaration ts) :
    item t ts = importRest t.span.start (.past t ts) >>= fun x =>
      .ok (x.1.map .importDecl, x.2) := by
  have hword : t.isWord "import" := by simp [Token.isWord, ht]
  unfold item
  rw [if_neg (by simp [ht]), if_neg (by simp [ht]), hword, hts, Bool.and_true, if_pos rfl]
  rfl

end Outline

end JobBundler
