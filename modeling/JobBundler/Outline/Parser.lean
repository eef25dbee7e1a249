import JobBundler.Outline.Class
import JobBundler.Outline.Import
import JobBundler.Token.Lexer

/-! # The outline of a source

At the top level of a module, import and class declarations are read and any other statement is
skipped. -/

namespace JobBundler

/-- What one statement adds to an outline. -/
inductive Item where
  | importDecl (d : ImportDecl)
  | classDecl (d : ClassDecl)

/-- The outline with one more item at its front. -/
def Outline.cons (o : Outline) (i : Option Item) : Outline :=
  match i with
  | none => o
  | some (.importDecl d) => { o with imports := d :: o.imports }
  | some (.classDecl d) => { o with classes := d :: o.classes }

/-- The statement that starts with the token `t`. -/
def item (t : Token) (ts : List Token) : Except SyntaxError (Option Item × Cursor) :=
  if t.kind = .semicolon then .ok (none, .past t ts)
  else if t.kind = .atSign then do
    let (d, c) ← decorator t.span.start (.past t ts)
    let (ds, c) ← decorators c
    let (decl, c) ← decoratedRest (d :: ds) c
    return (decl.map .classDecl, c)
  else if t.isWord "import" && isImportDeclaration ts then do
    let (decl, c) ← importRest t.span.start (.past t ts)
    return (decl.map .importDecl, c)
  else if t.isWord "export" then do
    let (decl, c) ← exportRest t.span.start [] (.past t ts)
    return (decl.map .classDecl, c)
  else match afterClassKeyword? (t :: ts) with
    | some c => do
      let (decl, c) ← classRest t.span.start [] .notExported c
      return (some (.classDecl decl), c)
    | none => do return (none, ← skipStatement t ts)

/-- The ways to read a statement that starts with the token `t`. -/
inductive ReadsItem (t : Token) (ts : List Token) : Option Item → Cursor → Prop
  | empty (ht : t.kind = .semicolon) : ReadsItem t ts none (.past t ts)
  | decorated {i : Option Item} {c c₁ c₂ : Cursor} {d : Decorator} {ds : List Decorator}
    {decl : Option ClassDecl} (ht : t.kind = .atSign)
    (hfirst : decorator t.span.start (.past t ts) = .ok (d, c₁))
    (hmore : decorators c₁ = .ok (ds, c₂)) (hrest : decoratedRest (d :: ds) c₂ = .ok (decl, c))
    (hi : decl.map .classDecl = i) : ReadsItem t ts i c
  | importing {i : Option Item} {c : Cursor} {decl : Option ImportDecl} (ht : t.isWord "import")
    (hdecl : isImportDeclaration ts)
    (hrest : importRest t.span.start (.past t ts) = .ok (decl, c))
    (hi : decl.map .importDecl = i) : ReadsItem t ts i c
  | exporting {i : Option Item} {c : Cursor} {decl : Option ClassDecl} (ht : t.isWord "export")
    (hrest : exportRest t.span.start [] (.past t ts) = .ok (decl, c))
    (hi : decl.map .classDecl = i) : ReadsItem t ts i c
  | plain {c c₁ : Cursor} {d : ClassDecl} (hkeyword : afterClassKeyword? (t :: ts) = some c₁)
    (hrest : classRest t.span.start [] .notExported c₁ = .ok (d, c)) :
    ReadsItem t ts (some (.classDecl d)) c
  | skipped {c : Cursor} (hskip : skipStatement t ts = .ok c) : ReadsItem t ts none c

theorem item_eq_ok {t : Token} {ts : List Token} {i : Option Item} {c : Cursor}
    (h : item t ts = .ok (i, c)) : ReadsItem t ts i c := by
  unfold item at h
  split at h
  · cases h
    exact .empty ‹_›
  split at h
  · obtain ⟨⟨d, c₁⟩, h₁, h⟩ := Except.bind_eq_ok_iff.1 h
    obtain ⟨⟨ds, c₂⟩, h₂, h⟩ := Except.bind_eq_ok_iff.1 h
    obtain ⟨⟨decl, c₃⟩, h₃, h⟩ := Except.bind_eq_ok_iff.1 h
    cases h
    exact .decorated ‹_› h₁ h₂ h₃ rfl
  split at h
  · obtain ⟨ht, hdecl⟩ := Bool.and_eq_true_iff.1 ‹_›
    obtain ⟨⟨decl, c₁⟩, h₁, h⟩ := Except.bind_eq_ok_iff.1 h
    cases h
    exact .importing ht hdecl h₁ rfl
  split at h
  · obtain ⟨⟨decl, c₁⟩, h₁, h⟩ := Except.bind_eq_ok_iff.1 h
    cases h
    exact .exporting ‹_› h₁ rfl
  split at h
  · obtain ⟨⟨decl, c₂⟩, h₂, h⟩ := Except.bind_eq_ok_iff.1 h
    cases h
    exact .plain ‹_› h₂
  · obtain ⟨c₁, h₁, h⟩ := Except.bind_eq_ok_iff.1 h
    cases h
    exact .skipped h₁

theorem item_length_le {t : Token} {ts : List Token} {i : Option Item} {c : Cursor}
    (h : item t ts = .ok (i, c)) : c.tokens.length ≤ ts.length := by
  cases item_eq_ok h with
  | empty => exact Nat.le_refl _
  | decorated _ hfirst hmore hrest =>
    exact Nat.le_trans (decoratedRest_length_le hrest)
      (Nat.le_trans (decorators_length_le hmore) (decorator_length_le hfirst))
  | importing _ _ hrest => exact importRest_length_le hrest
  | exporting _ hrest => exact exportRest_length_le hrest
  | plain hkeyword hrest =>
    exact Nat.le_trans (classRest_length_le hrest)
      (Nat.le_of_lt_succ (afterClassKeyword?_length_lt hkeyword))
  | skipped hskip => exact skipStatement_length_le hskip

/-- The outline of the tokens of a module. -/
def Outline.ofTokens (ts : List Token) : Except SyntaxError Outline :=
  match ts with
  | [] => .ok ∅
  | t :: ts =>
    match _h : item t ts with
    | .error e => .error e
    | .ok (i, c) => do return (← ofTokens c.tokens).cons i
termination_by ts.length
decreasing_by exact Nat.lt_succ_of_le (item_length_le _h)

/-- The outline of a source. -/
def Outline.ofSource (source : String) : Except SyntaxError Outline :=
  match tokenize source with
  | .error e => .error (.lexical e)
  | .ok ts => Outline.ofTokens ts

end JobBundler
