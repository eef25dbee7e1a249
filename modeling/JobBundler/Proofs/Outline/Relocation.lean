import JobBundler.Proofs.Outline.Imports
import JobBundler.Proofs.Token.Relocation

/-!
# Outlines at another place

Tokens are read in the same way at another place, and when a declaration follows them on a new line.
Each reading function has a lemma on what it reads with success. Here are those of cursors and of the
statements that are skipped.
-/

namespace JobBundler

/-! ## What is moved -/

def Decorator.relocate (ρ : Relocation) (d : Decorator) : Decorator :=
  { d with span := d.span.relocate ρ }

def ImportDecl.relocate (ρ : Relocation) (d : ImportDecl) : ImportDecl :=
  { d with attributes := d.attributes.map (Span.relocate ρ), span := d.span.relocate ρ }

def ClassDecl.relocate (ρ : Relocation) (d : ClassDecl) : ClassDecl :=
  { d with
    decorators := d.decorators.map (Decorator.relocate ρ)
    span := d.span.relocate ρ
    body := d.body.relocate ρ }

def Item.relocate (ρ : Relocation) : Item → Item
  | .importDecl d => .importDecl (d.relocate ρ)
  | .classDecl d => .classDecl (d.relocate ρ)

def Outline.relocate (ρ : Relocation) (o : Outline) : Outline :=
  ⟨o.imports.map (ImportDecl.relocate ρ), o.classes.map (ClassDecl.relocate ρ)⟩

/-- The tokens at another place, with `bs` after them. -/
def Token.relocateAll (ρ : Relocation) (bs ts : List Token) : List Token :=
  ts.map (relocate ρ) ++ bs

/-- The cursor among the tokens at another place, with `bs` after them. -/
def Cursor.relocate (ρ : Relocation) (bs : List Token) (c : Cursor) : Cursor :=
  ⟨ρ.stop c.lastStop, Token.relocateAll ρ bs c.tokens⟩

/-- The kinds of token that a declaration starts with. -/
def TokenKind.declarations : List TokenKind :=
  [.atSign, .ident "import", .ident "export", .ident "class", .ident "abstract"]

/-- There are no tokens, or they start a declaration on a new line. -/
def StartLine (ts : List Token) : Prop :=
  ∀ u us, ts = u :: us → u.newlineBefore ∧ startsDeclaration ts

open Token (relocateAll)

variable {ρ : Relocation} {bs ts us : List Token} {t u : Token} {c c' : Cursor} {start : Nat}

@[simp] theorem Token.relocateAll_nil : relocateAll ρ bs [] = bs := rfl

@[simp] theorem Token.relocateAll_cons :
    relocateAll ρ bs (t :: ts) = t.relocate ρ :: relocateAll ρ bs ts := rfl

theorem Token.relocate_kind : (t.relocate ρ).kind = t.kind := rfl

theorem Token.relocate_isWord {word : String} : (t.relocate ρ).isWord word = t.isWord word := rfl

@[simp] theorem Cursor.relocate_tokens : (c.relocate ρ bs).tokens = relocateAll ρ bs c.tokens := rfl

theorem startLine_nil : StartLine [] := by
  rintro u us ⟨⟩

theorem kind_mem_declarations (h : startsDeclaration (u :: us)) :
    u.kind ∈ TokenKind.declarations := by
  rw [startsDeclaration, Bool.or_eq_true] at h
  rcases h with h | h
  · simp only [List.head?_cons, Option.any_some, Bool.or_eq_true, beq_iff_eq, Token.isWord] at h
    rcases h with (h | h) | h <;> simp [h, TokenKind.declarations]
  · unfold afterClassKeyword? at h
    split at h
    · rename_i t ts heq
      cases heq
      split at h
      · simp_all [TokenKind.declarations, Token.isWord]
      · split at h
        · split at h
          · simp_all [TokenKind.declarations, Token.isWord]
          · cases h
        · cases h
    · cases h

theorem StartLine.kind_ne (h : StartLine (u :: us)) {kind : TokenKind}
    (hk : kind ∉ TokenKind.declarations) : u.kind ≠ kind := by
  rintro rfl
  exact hk (kind_mem_declarations (h u us rfl).2)

/-! ## Cursors -/

namespace Cursor

theorem advance_relocate (h : c.tokens ≠ []) :
    (c.relocate ρ bs).advance = c.advance.relocate ρ bs := by
  obtain ⟨stop, ts⟩ := c
  cases ts with
  | nil => exact absurd rfl h
  | cons t ts => rfl

theorem ne_nil_of_atKind {kind : TokenKind} (h : c.atKind kind) : c.tokens ≠ [] := by
  intro hnil
  rw [atKind, hnil] at h
  cases h

theorem atKind_relocate (hbs : StartLine bs) {kind : TokenKind} (hk : kind ∉ TokenKind.declarations) :
    (c.relocate ρ bs).atKind kind = c.atKind kind := by
  obtain ⟨stop, ts⟩ := c
  cases ts with
  | cons t ts => rfl
  | nil =>
    cases bs with
    | nil => rfl
    | cons u us => exact beq_eq_false_iff_ne.2 (hbs.kind_ne hk)

theorem atWord_relocate (hbs : StartLine bs) {word : String}
    (hword : .ident word ∉ TokenKind.declarations) :
    (c.relocate ρ bs).atWord word = c.atWord word :=
  atKind_relocate hbs hword

theorem atKind_relocate_of_ne_nil (hne : c.tokens ≠ []) (kind : TokenKind) :
    (c.relocate ρ bs).atKind kind = c.atKind kind := by
  obtain ⟨stop, ts⟩ := c
  cases ts with
  | nil => exact absurd rfl hne
  | cons t ts => rfl

theorem skipKind_relocate (hbs : StartLine bs) {kind : TokenKind}
    (hk : kind ∉ TokenKind.declarations) :
    (c.relocate ρ bs).skipKind kind = (c.skipKind kind).relocate ρ bs := by
  unfold skipKind
  rw [atKind_relocate hbs hk]
  split
  · exact advance_relocate (ne_nil_of_atKind ‹_›)
  · rfl

theorem expectWord_relocate {word : String} (h : c.expectWord word = .ok c') :
    (c.relocate ρ bs).expectWord word = .ok (c'.relocate ρ bs) := by
  unfold expectWord at h
  split at h
  · rename_i hword
    cases h
    have hne := ne_nil_of_atKind hword
    have hword' : (c.relocate ρ bs).atWord word := by
      rwa [atWord, atKind_relocate_of_ne_nil hne]
    rw [expectWord, if_pos hword', advance_relocate hne]
  · cases h

theorem expectName_relocate {expected : Expectation} {name : String}
    (h : c.expectName expected = .ok (name, c')) :
    (c.relocate ρ bs).expectName expected = .ok (name, c'.relocate ρ bs) := by
  obtain ⟨stop, ts⟩ := c
  unfold expectName at h
  split at h
  · rename_i hts
    cases hts
    cases h
    rfl
  · cases h

theorem expectString_relocate {expected : Expectation} {value : String}
    (h : c.expectString expected = .ok (value, c')) :
    (c.relocate ρ bs).expectString expected = .ok (value, c'.relocate ρ bs) := by
  obtain ⟨stop, ts⟩ := c
  unfold expectString at h
  split at h
  · rename_i hts
    cases hts
    cases h
    rfl
  · cases h

end Cursor

theorem skipGroup_relocate {inner : Nat} (h : skipGroup inner ts = .ok c) :
    skipGroup inner (relocateAll ρ bs ts) = .ok (c.relocate ρ bs) := by
  induction ts generalizing inner with
  | nil => cases h
  | cons t ts ih =>
    rw [Token.relocateAll_cons]
    unfold skipGroup at h ⊢
    rw [Token.relocate_kind]
    split at h
    · exact ih h
    · cases h
      rfl
    · exact ih h
    · exact ih h

/-! ## Statements that are skipped -/

theorem afterClassKeyword?_relocate (hbs : StartLine bs) (hne : ts ≠ []) :
    afterClassKeyword? (relocateAll ρ bs ts) =
      (afterClassKeyword? ts).map (Cursor.relocate ρ bs) := by
  obtain ⟨t, ts, rfl⟩ := List.exists_cons_of_ne_nil hne
  rw [Token.relocateAll_cons]
  unfold afterClassKeyword?
  dsimp only
  rw [Token.relocate_isWord, Token.relocate_isWord]
  by_cases hclass : t.isWord "class"
  · rw [if_pos hclass, if_pos hclass]
    rfl
  rw [if_neg hclass, if_neg hclass]
  cases ts with
  | cons u us =>
    have hline : (u.relocate ρ).newlineBefore = u.newlineBefore := rfl
    rw [Token.relocateAll_cons]
    dsimp only
    rw [Token.relocate_isWord, hline]
    split <;> rfl
  | nil =>
    cases bs with
    | nil => rfl
    | cons u us =>
      have hline : u.newlineBefore = true := (hbs u us rfl).1
      simp [hline]

theorem startsDeclaration_relocate (hbs : StartLine bs) (hne : ts ≠ []) :
    startsDeclaration (relocateAll ρ bs ts) = startsDeclaration ts := by
  have hclass : afterClassKeyword? (relocateAll ρ bs ts) =
      (afterClassKeyword? ts).map (Cursor.relocate ρ bs) := afterClassKeyword?_relocate hbs hne
  obtain ⟨t, ts, rfl⟩ := List.exists_cons_of_ne_nil hne
  rw [startsDeclaration, hclass, startsDeclaration, Option.isSome_map]
  rfl

theorem skipStatementRest_of_nil (h : c.tokens = []) : skipStatementRest c = .ok c := by
  rw [skipStatementRest]
  split
  · rfl
  · simp_all

theorem skipStatementRest_of_cons (h : c.tokens = t :: ts) :
    skipStatementRest c =
      if t.newlineBefore && startsDeclaration (t :: ts) then .ok c
      else match t.kind with
        | .semicolon => .ok (.past t ts)
        | .opening _ => skipGroup 0 ts >>= skipStatementRest
        | .closing _ => .error (.unexpectedToken t .statement)
        | _ => skipStatementRest (.past t ts) := by
  rw [skipStatementRest]
  split
  · simp_all
  · rename_i t' ts' hts
    rw [h] at hts
    cases hts
    split
    · rfl
    · cases hkind : t.kind with
      | opening b => cases skipGroup 0 ts <;> rfl
      | _ => rfl

theorem skipStatementRest_relocate_of_cons (hbs : StartLine bs) (h : c.tokens = t :: ts) :
    skipStatementRest (c.relocate ρ bs) =
      if t.newlineBefore && startsDeclaration (t :: ts) then .ok (c.relocate ρ bs)
      else match t.kind with
        | .semicolon => .ok (.past (t.relocate ρ) (relocateAll ρ bs ts))
        | .opening _ => skipGroup 0 (relocateAll ρ bs ts) >>= skipStatementRest
        | .closing _ => .error (.unexpectedToken (t.relocate ρ) .statement)
        | _ => skipStatementRest (.past (t.relocate ρ) (relocateAll ρ bs ts)) := by
  have htokens : (c.relocate ρ bs).tokens = t.relocate ρ :: relocateAll ρ bs ts := by
    rw [Cursor.relocate_tokens, h, Token.relocateAll_cons]
  rw [skipStatementRest_of_cons htokens, ← Token.relocateAll_cons,
    startsDeclaration_relocate hbs (List.cons_ne_nil t ts)]
  rfl

theorem skipStatementRest_relocate (hbs : StartLine bs) (h : skipStatementRest c = .ok c') :
    skipStatementRest (c.relocate ρ bs) = .ok (c'.relocate ρ bs) := by
  fun_induction skipStatementRest c with
  | case1 c hts =>
    cases h
    have htokens : (c'.relocate ρ bs).tokens = bs := by
      rw [Cursor.relocate_tokens, hts, Token.relocateAll_nil]
    cases bs with
    | nil => exact skipStatementRest_of_nil htokens
    | cons u us =>
      obtain ⟨hline, hstarts⟩ := hbs u us rfl
      rw [skipStatementRest_of_cons htokens, hline, hstarts]
      rfl
  | case2 c t ts hts hends =>
    cases h
    rw [skipStatementRest_relocate_of_cons hbs hts, if_pos hends]
  | case3 c t ts hts hends hkind =>
    cases h
    rw [skipStatementRest_relocate_of_cons hbs hts, if_neg hends, hkind]
    rfl
  | case4 => cases h
  | case5 c t ts hts hends b hkind c₁ hg ih =>
    rw [skipStatementRest_relocate_of_cons hbs hts, if_neg hends, hkind]
    show skipGroup 0 (relocateAll ρ bs ts) >>= skipStatementRest = _
    rw [skipGroup_relocate hg]
    exact ih h
  | case6 => cases h
  | case7 c t ts hts hends hsemi hopen hclose ih =>
    rw [skipStatementRest_relocate_of_cons hbs hts, if_neg hends]
    split
    · exact absurd ‹_› hsemi
    · exact absurd ‹_› (hopen _)
    · exact absurd ‹_› (hclose _)
    · exact ih h

theorem skipStatement_relocate (hbs : StartLine bs) (h : skipStatement t ts = .ok c) :
    skipStatement (t.relocate ρ) (relocateAll ρ bs ts) = .ok (c.relocate ρ bs) := by
  unfold skipStatement at h ⊢
  rw [Token.relocate_kind]
  split at h
  · cases h
    rfl
  · obtain ⟨c₁, h₁, h⟩ := Except.bind_eq_ok_iff.1 h
    exact Except.bind_eq_ok_iff.2 ⟨_, skipGroup_relocate h₁, skipStatementRest_relocate hbs h⟩
  · cases h
  · exact skipStatementRest_relocate hbs h

end JobBundler
