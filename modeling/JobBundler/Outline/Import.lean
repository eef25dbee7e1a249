import JobBundler.Outline.Basic
import JobBundler.Outline.Statement

/-! # Import declarations -/

namespace JobBundler

/-- Whether the tokens after `import` make it a declaration, and not a call or `import.meta`. -/
def isImportDeclaration (ts : List Token) : Bool :=
  !ts.head?.any fun t => t.kind == .opening .paren || t.kind == .dot

/-- The cursor after the word `type`, when it stands at the cursor and `modifies` holds of the
token after it. -/
def typeModifier? (modifies : TokenKind → Bool) (c : Cursor) : Option Cursor :=
  match c.tokens with
  | t :: u :: us => if t.isWord "type" && modifies u.kind then some (.past t (u :: us)) else none
  | _ => none

/-- Whether `type` before this token marks a whole declaration. -/
def marksDeclaration : TokenKind → Bool
  | .opening .brace | .star => true
  | .ident word => word != "from"
  | _ => false

/-- Whether `type` before this token marks one specifier. -/
def marksSpecifier : TokenKind → Bool
  | .ident word => word != "as"
  | .str _ => true
  | _ => false

/-- One specifier between the braces of an import. A string has to be renamed. -/
def importSpecifier (c : Cursor) : Except SyntaxError (NamedImport × Cursor) := do
  let modified := typeModifier? marksSpecifier c
  let c := modified.getD c
  match c.tokens with
  | ⟨.ident imported, _, _⟩ :: _ =>
    let c := c.advance
    if c.atWord "as" then
      let (binding, c) ← c.advance.expectName .localBinding
      return (⟨imported, binding, modified.isSome⟩, c)
    else return (⟨imported, imported, modified.isSome⟩, c)
  | ⟨.str imported, _, _⟩ :: _ =>
    let c ← c.advance.expectWord "as"
    let (binding, c) ← c.expectName .localBinding
    return (⟨imported, binding, modified.isSome⟩, c)
  | _ => throw (c.unexpected .importSpecifier)

theorem typeModifier?_length_le {modifies : TokenKind → Bool} {c c' : Cursor}
    (h : typeModifier? modifies c = some c') : c'.tokens.length ≤ c.tokens.length := by
  unfold typeModifier? at h
  split at h
  · split at h <;> cases h
    simp_all [Cursor.past]
  · cases h

theorem modified_length_le (modifies : TokenKind → Bool) (c : Cursor) :
    ((typeModifier? modifies c).getD c).tokens.length ≤ c.tokens.length := by
  cases h : typeModifier? modifies c with
  | none => exact Nat.le_refl _
  | some c₁ => exact typeModifier?_length_le h

/-- The ways to read a specifier from `c₁` on, where its modifier is past. -/
inductive ReadsSpecifier (typeOnly : Bool) (c₁ : Cursor) : NamedImport → Cursor → Prop
  | renamed {name binding : String} {span : Span} {newline : Bool} {ts : List Token} {c' : Cursor}
    (hc : c₁.tokens = ⟨.ident name, span, newline⟩ :: ts) (has : c₁.advance.atWord "as")
    (hbinding : c₁.advance.advance.expectName .localBinding = .ok (binding, c')) :
    ReadsSpecifier typeOnly c₁ ⟨name, binding, typeOnly⟩ c'
  | plain {name : String} {span : Span} {newline : Bool} {ts : List Token}
    (hc : c₁.tokens = ⟨.ident name, span, newline⟩ :: ts) (has : ¬c₁.advance.atWord "as") :
    ReadsSpecifier typeOnly c₁ ⟨name, name, typeOnly⟩ c₁.advance
  | string {value binding : String} {span : Span} {newline : Bool} {ts : List Token}
    {c₂ c' : Cursor} (hc : c₁.tokens = ⟨.str value, span, newline⟩ :: ts)
    (has : c₁.advance.expectWord "as" = .ok c₂)
    (hbinding : c₂.expectName .localBinding = .ok (binding, c')) :
    ReadsSpecifier typeOnly c₁ ⟨value, binding, typeOnly⟩ c'

theorem importSpecifier_eq_ok {c c' : Cursor} {n : NamedImport}
    (h : importSpecifier c = .ok (n, c')) :
    ReadsSpecifier (typeModifier? marksSpecifier c).isSome
      ((typeModifier? marksSpecifier c).getD c) n c' := by
  unfold importSpecifier at h
  dsimp only at h
  split at h
  · rename_i hc
    split at h
    · obtain ⟨⟨b, c₂⟩, h₂, h⟩ := Except.bind_eq_ok_iff.1 h
      cases h
      exact .renamed hc ‹_› h₂
    · cases h
      exact .plain hc ‹_›
  · rename_i hc
    obtain ⟨c₂, h₂, h⟩ := Except.bind_eq_ok_iff.1 h
    obtain ⟨⟨b, c₃⟩, h₃, h⟩ := Except.bind_eq_ok_iff.1 h
    cases h
    exact .string hc h₂ h₃
  · cases h

theorem importSpecifier_length_lt {c c' : Cursor} {n : NamedImport}
    (h : importSpecifier c = .ok (n, c')) : c'.tokens.length < c.tokens.length := by
  refine Nat.lt_of_lt_of_le ?_ (modified_length_le marksSpecifier c)
  have hread := importSpecifier_eq_ok h
  generalize (typeModifier? marksSpecifier c).getD c = c₁ at hread
  have hadv {t : Token} {ts : List Token} (ht : c₁.tokens = t :: ts) :
      c₁.advance.tokens.length < c₁.tokens.length := by
    simp [Cursor.advance, ht, Cursor.past]
  cases hread with
  | renamed hc _ hbinding =>
    exact Nat.lt_of_le_of_lt (Nat.le_trans (Cursor.expectName_length_le hbinding)
      c₁.advance.advance_length_le) (hadv hc)
  | plain hc => exact hadv hc
  | string hc has hbinding =>
    exact Nat.lt_of_le_of_lt (Nat.le_trans (Cursor.expectName_length_le hbinding)
      (Cursor.expectWord_length_le has)) (hadv hc)

/-- The specifiers of an import after the opening brace. -/
def importSpecifiers (c : Cursor) : Except SyntaxError (List NamedImport × Cursor) :=
  if c.atKind (.closing .brace) then .ok ([], c.advance)
  else match _h : importSpecifier c with
    | .error e => .error e
    | .ok (n, c') =>
      if c'.atKind .comma then do
        let (ns, c'') ← importSpecifiers c'.advance
        return (n :: ns, c'')
      else if c'.atKind (.closing .brace) then .ok ([n], c'.advance)
      else .error (c'.unexpected .commaOrBrace)
termination_by c.tokens.length
decreasing_by
  exact Nat.lt_of_le_of_lt (c'.advance_length_le) (importSpecifier_length_lt _h)

/-- What an import declaration binds. -/
structure ImportClause where
  defaultBinding : Option String
  namespaceBinding : Option String
  named : List NamedImport

/-- The `with` or `assert` clause at the cursor, if there is one. -/
def importAttributes (c : Cursor) : Except SyntaxError (Option Span × Cursor) :=
  match c.tokens with
  | t :: ⟨.opening .brace, _, _⟩ :: ts =>
    if t.isWord "with" || t.isWord "assert" then do
      let c ← skipGroup 0 ts
      return (some ⟨t.span.start, c.lastStop⟩, c)
    else .ok (none, c)
  | _ => .ok (none, c)

/-- The specifier, the attributes and the semicolon of an import that starts at byte `start`. -/
def importTail (start : Nat) (typeOnly : Bool) (clause : ImportClause) (c : Cursor) :
    Except SyntaxError (ImportDecl × Cursor) := do
  let (specifier, c) ← c.expectString .moduleSpecifier
  let (attributes, c) ← importAttributes c
  let c := c.skipKind .semicolon
  return ({ specifier, typeOnly, attributes, span := ⟨start, c.lastStop⟩
            defaultBinding := clause.defaultBinding
            namespaceBinding := clause.namespaceBinding
            named := clause.named }, c)

/-- A namespace or the specifiers between braces, and the word `from`. -/
def innerClause (defaultBinding : Option String) (c : Cursor) :
    Except SyntaxError (ImportClause × Cursor) :=
  if c.atKind .star then do
    let c ← c.advance.expectWord "as"
    let (name, c) ← c.expectName .namespaceBinding
    return (⟨defaultBinding, some name, []⟩, ← c.expectWord "from")
  else if c.atKind (.opening .brace) then do
    let (named, c) ← importSpecifiers c.advance
    return (⟨defaultBinding, none, named⟩, ← c.expectWord "from")
  else .error (c.unexpected .importClause)

/-- The clause of an import and the word `from`; a lone string has neither. A declaration
`import x = …`, which has no clause, is skipped. -/
def importClause (c : Cursor) : Except SyntaxError (Option ImportClause × Cursor) :=
  match c.tokens with
  | ⟨.str _, _, _⟩ :: _ => .ok (some ⟨none, none, []⟩, c)
  | ⟨.ident _, _, _⟩ :: ⟨.assign, span, newline⟩ :: ts => do
    return (none, ← skipStatement ⟨.assign, span, newline⟩ ts)
  | ⟨.ident name, _, _⟩ :: _ =>
    if c.advance.atKind .comma then do
      let (clause, c) ← innerClause (some name) c.advance.advance
      return (some clause, c)
    else do return (some ⟨some name, none, []⟩, ← c.advance.expectWord "from")
  | _ => do
    let (clause, c) ← innerClause none c
    return (some clause, c)

/-- What stands after the keyword `import` at byte `start`. -/
def importRest (start : Nat) (c : Cursor) : Except SyntaxError (Option ImportDecl × Cursor) := do
  let modified := typeModifier? marksDeclaration c
  match ← importClause (modified.getD c) with
  | (none, c) => return (none, c)
  | (some clause, c) =>
    let (decl, c) ← importTail start modified.isSome clause c
    return (some decl, c)

theorem importSpecifiers_length_le {c c' : Cursor} {ns : List NamedImport}
    (h : importSpecifiers c = .ok (ns, c')) : c'.tokens.length ≤ c.tokens.length := by
  fun_induction importSpecifiers c generalizing ns c' with
  | case1 c =>
    cases h
    exact c.advance_length_le
  | case2 | case5 => cases h
  | case3 c _ n c₁ hn _ ih =>
    obtain ⟨⟨ns', c₂⟩, h₂, h⟩ := Except.bind_eq_ok_iff.1 h
    cases h
    exact Nat.le_trans (ih h₂)
      (Nat.le_trans c₁.advance_length_le (Nat.le_of_lt (importSpecifier_length_lt hn)))
  | case4 c _ n c₁ hn =>
    cases h
    exact Nat.le_trans c₁.advance_length_le (Nat.le_of_lt (importSpecifier_length_lt hn))

theorem importAttributes_length_le {c c' : Cursor} {a : Option Span}
    (h : importAttributes c = .ok (a, c')) : c'.tokens.length ≤ c.tokens.length := by
  unfold importAttributes at h
  split at h
  · rename_i ts ht
    split at h
    · obtain ⟨c₁, h₁, h⟩ := Except.bind_eq_ok_iff.1 h
      cases h
      have := skipGroup_length_lt h₁
      rw [ht, List.length_cons, List.length_cons]
      exact Nat.le_of_lt (Nat.lt_succ_of_lt (Nat.lt_succ_of_lt this))
    · cases h
      exact Nat.le_refl _
  · cases h
    exact Nat.le_refl _

theorem importTail_length_le {start : Nat} {typeOnly : Bool} {clause : ImportClause}
    {c c' : Cursor} {decl : ImportDecl} (h : importTail start typeOnly clause c = .ok (decl, c')) :
    c'.tokens.length ≤ c.tokens.length := by
  unfold importTail at h
  obtain ⟨⟨specifier, c₁⟩, h₁, h⟩ := Except.bind_eq_ok_iff.1 h
  obtain ⟨⟨attributes, c₂⟩, h₂, h⟩ := Except.bind_eq_ok_iff.1 h
  cases h
  exact Nat.le_trans (c₂.skipKind_length_le _)
    (Nat.le_trans (importAttributes_length_le h₂) (Cursor.expectString_length_le h₁))

/-- The ways to read a namespace or specifiers between braces. -/
inductive ReadsInner (defaultBinding : Option String) (c : Cursor) : ImportClause → Cursor → Prop
  | space {ns : String} {c₁ c₂ c' : Cursor} (hstar : c.atKind .star)
    (has : c.advance.expectWord "as" = .ok c₁)
    (hspace : c₁.expectName .namespaceBinding = .ok (ns, c₂))
    (hfrom : c₂.expectWord "from" = .ok c') :
    ReadsInner defaultBinding c ⟨defaultBinding, some ns, []⟩ c'
  | named {named : List NamedImport} {c₁ c' : Cursor} (hstar : ¬c.atKind .star)
    (hbrace : c.atKind (.opening .brace)) (hnamed : importSpecifiers c.advance = .ok (named, c₁))
    (hfrom : c₁.expectWord "from" = .ok c') :
    ReadsInner defaultBinding c ⟨defaultBinding, none, named⟩ c'

theorem innerClause_eq_ok {name : Option String} {c c' : Cursor} {clause : ImportClause}
    (h : innerClause name c = .ok (clause, c')) : ReadsInner name c clause c' := by
  unfold innerClause at h
  split at h
  · obtain ⟨c₁, h₁, h⟩ := Except.bind_eq_ok_iff.1 h
    obtain ⟨⟨ns, c₂⟩, h₂, h⟩ := Except.bind_eq_ok_iff.1 h
    obtain ⟨c₃, h₃, h⟩ := Except.bind_eq_ok_iff.1 h
    cases h
    exact .space ‹_› h₁ h₂ h₃
  · rename_i hstar
    split at h
    · obtain ⟨⟨named, c₁⟩, h₁, h⟩ := Except.bind_eq_ok_iff.1 h
      obtain ⟨c₂, h₂, h⟩ := Except.bind_eq_ok_iff.1 h
      cases h
      exact .named hstar ‹_› h₁ h₂
    · cases h

theorem innerClause_length_le {name : Option String} {c c' : Cursor} {clause : ImportClause}
    (h : innerClause name c = .ok (clause, c')) : c'.tokens.length ≤ c.tokens.length := by
  cases innerClause_eq_ok h with
  | space _ has hspace hfrom =>
    exact Nat.le_trans (Cursor.expectWord_length_le hfrom) (Nat.le_trans
      (Cursor.expectName_length_le hspace)
      (Nat.le_trans (Cursor.expectWord_length_le has) c.advance_length_le))
  | named _ _ hnamed hfrom =>
    exact Nat.le_trans (Cursor.expectWord_length_le hfrom)
      (Nat.le_trans (importSpecifiers_length_le hnamed) c.advance_length_le)

/-- The ways to read a clause. -/
inductive ReadsClause (c : Cursor) : Option ImportClause → Cursor → Prop
  | absent {value : String} {span : Span} {newline : Bool} {ts : List Token}
    (hc : c.tokens = ⟨.str value, span, newline⟩ :: ts) : ReadsClause c (some ⟨none, none, []⟩) c
  | assignment {name : String} {span span' : Span} {newline newline' : Bool} {ts : List Token}
    {c' : Cursor}
    (hc : c.tokens = ⟨.ident name, span, newline⟩ :: ⟨.assign, span', newline'⟩ :: ts)
    (hskip : skipStatement ⟨.assign, span', newline'⟩ ts = .ok c') : ReadsClause c none c'
  | both {name : String} {span : Span} {newline : Bool} {ts : List Token} {clause : ImportClause}
    {c' : Cursor} (hc : c.tokens = ⟨.ident name, span, newline⟩ :: ts)
    (hassign : ∀ t ∈ ts.head?, t.kind ≠ .assign) (hcomma : c.advance.atKind .comma)
    (hinner : innerClause (some name) c.advance.advance = .ok (clause, c')) :
    ReadsClause c (some clause) c'
  | default {name : String} {span : Span} {newline : Bool} {ts : List Token} {c' : Cursor}
    (hc : c.tokens = ⟨.ident name, span, newline⟩ :: ts)
    (hassign : ∀ t ∈ ts.head?, t.kind ≠ .assign) (hcomma : ¬c.advance.atKind .comma)
    (hfrom : c.advance.expectWord "from" = .ok c') : ReadsClause c (some ⟨some name, none, []⟩) c'
  | inner {clause : ImportClause} {c' : Cursor} (hinner : innerClause none c = .ok (clause, c')) :
    ReadsClause c (some clause) c'

theorem importClause_eq_ok {c c' : Cursor} {clause : Option ImportClause}
    (h : importClause c = .ok (clause, c')) : ReadsClause c clause c' := by
  unfold importClause at h
  split at h
  · rename_i hc
    cases h
    exact .absent hc
  · rename_i hc
    obtain ⟨c₁, h₁, h⟩ := Except.bind_eq_ok_iff.1 h
    cases h
    exact .assignment hc h₁
  · rename_i ts hne hc
    have hassign : ∀ t ∈ ts.head?, t.kind ≠ .assign := by
      intro t ht hkind
      obtain ⟨us, rfl⟩ := List.head?_eq_some_iff.1 ht
      exact hne t.span t.newlineBefore us (by rw [← hkind])
    split at h
    · obtain ⟨⟨inner, c₁⟩, h₁, h⟩ := Except.bind_eq_ok_iff.1 h
      cases h
      exact .both hc hassign ‹_› h₁
    · obtain ⟨c₁, h₁, h⟩ := Except.bind_eq_ok_iff.1 h
      cases h
      exact .default hc hassign ‹_› h₁
  · obtain ⟨⟨inner, c₁⟩, h₁, h⟩ := Except.bind_eq_ok_iff.1 h
    cases h
    exact .inner h₁

theorem importClause_length_le {c c' : Cursor} {clause : Option ImportClause}
    (h : importClause c = .ok (clause, c')) : c'.tokens.length ≤ c.tokens.length := by
  cases importClause_eq_ok h with
  | absent => exact Nat.le_refl _
  | assignment hc hskip =>
    rw [hc, List.length_cons, List.length_cons]
    exact Nat.le_succ_of_le (Nat.le_succ_of_le (skipStatement_length_le hskip))
  | both _ _ _ hinner =>
    exact Nat.le_trans (innerClause_length_le hinner)
      (Nat.le_trans c.advance.advance_length_le c.advance_length_le)
  | default _ _ _ hfrom =>
    exact Nat.le_trans (Cursor.expectWord_length_le hfrom) c.advance_length_le
  | inner hinner => exact innerClause_length_le hinner

/-- The ways to read what stands after the keyword `import`. -/
inductive ReadsImport (start : Nat) (c : Cursor) : Option ImportDecl → Cursor → Prop
  | assignment {c' : Cursor}
    (hclause : importClause ((typeModifier? marksDeclaration c).getD c) = .ok (none, c')) :
    ReadsImport start c none c'
  | declaration {clause : ImportClause} {d : ImportDecl} {c₁ c' : Cursor}
    (hclause : importClause ((typeModifier? marksDeclaration c).getD c) = .ok (some clause, c₁))
    (htail : importTail start (typeModifier? marksDeclaration c).isSome clause c₁ = .ok (d, c')) :
    ReadsImport start c (some d) c'

theorem importRest_eq_ok {start : Nat} {c c' : Cursor} {decl : Option ImportDecl}
    (h : importRest start c = .ok (decl, c')) : ReadsImport start c decl c' := by
  unfold importRest at h
  obtain ⟨⟨clause, c₁⟩, h₁, h⟩ := Except.bind_eq_ok_iff.1 h
  cases clause with
  | none =>
    cases h
    exact .assignment h₁
  | some clause =>
    obtain ⟨⟨d, c₂⟩, h₂, h⟩ := Except.bind_eq_ok_iff.1 h
    cases h
    exact .declaration h₁ h₂

theorem importRest_length_le {start : Nat} {c c' : Cursor} {decl : Option ImportDecl}
    (h : importRest start c = .ok (decl, c')) : c'.tokens.length ≤ c.tokens.length := by
  have hm := modified_length_le marksDeclaration c
  cases importRest_eq_ok h with
  | assignment hclause => exact Nat.le_trans (importClause_length_le hclause) hm
  | declaration hclause htail =>
    exact Nat.le_trans (importTail_length_le htail)
      (Nat.le_trans (importClause_length_le hclause) hm)

end JobBundler
