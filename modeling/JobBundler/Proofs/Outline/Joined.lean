import JobBundler.Proofs.Outline.Relocation.Classes
import JobBundler.Proofs.Outline.Relocation.Imports
import JobBundler.Proofs.Token.Joined

/-!
# Two sources one after the other

The outline of a source and of declarations on the lines after it is the outline of the source and that
of the declarations, further on (`Outline.ofSource_append_declaration`).
-/

namespace JobBundler

open Token (relocateAll)

variable {ρ : Relocation} {bs ts us : List Token} {t u : Token} {c c' : Cursor} {start : Nat}

/-! ## Statements -/

/-- The tokens do not end in `export` or in `export default`. -/
def EndsInExport (ts : List Token) : Prop :=
  [.ident "export"] <:+ ts.map (·.kind) ∨ [.ident "export", .ident "default"] <:+ ts.map (·.kind)

instance (ts : List Token) : Decidable (EndsInExport ts) :=
  inferInstanceAs (Decidable (_ ∨ _))

theorem EndsInExport.of_suffix (h : EndsInExport us) (hs : us <:+ ts) : EndsInExport ts :=
  h.imp (·.trans (hs.map _)) (·.trans (hs.map _))

theorem ne_nil_of_not_endsInExport (h : ¬EndsInExport (t :: ts)) (ht : t.isWord "export") :
    (if (Cursor.past t ts).atWord "default" then (Cursor.past t ts).advance
      else .past t ts).tokens ≠ [] := by
  have hkind : t.kind = .ident "export" := beq_iff_eq.1 ht
  intro hnil
  split at hnil
  · rename_i hdefault
    obtain ⟨d, ds, hds⟩ := List.exists_cons_of_ne_nil (Cursor.ne_nil_of_atKind hdefault)
    obtain rfl : ts = d :: ds := hds
    obtain rfl : ds = [] := hnil
    have hd : d.kind = .ident "default" := beq_iff_eq.1 hdefault
    exact h (.inr (by simp [hkind, hd]))
  · obtain rfl : ts = [] := hnil
    exact h (.inl (by simp [hkind]))

theorem item_relocate (hbs : StartLine bs) {i : Option Item} (h : item t ts = .ok (i, c))
    (hend : ¬EndsInExport (t :: ts) ∨ bs = []) :
    item (t.relocate ρ) (relocateAll ρ bs ts) = .ok (i.map (Item.relocate ρ), c.relocate ρ bs) := by
  unfold item at h ⊢
  rw [Token.relocate_kind, Token.relocate_isWord, Token.relocate_isWord,
    isImportDeclaration_relocate hbs, ← Token.relocateAll_cons,
    afterClassKeyword?_relocate hbs (List.cons_ne_nil t ts)]
  by_cases hsemi : t.kind = .semicolon
  · rw [if_pos hsemi] at h ⊢
    cases h
    rfl
  rw [if_neg hsemi] at h ⊢
  by_cases hat : t.kind = .atSign
  · rw [if_pos hat] at h ⊢
    obtain ⟨⟨d, c₁⟩, h₁, h⟩ := Except.bind_eq_ok_iff.1 h
    obtain ⟨⟨ds, c₂⟩, h₂, h⟩ := Except.bind_eq_ok_iff.1 h
    obtain ⟨⟨decl, c₃⟩, h₃, h⟩ := Except.bind_eq_ok_iff.1 h
    cases h
    refine Except.bind_eq_ok_iff.2 ⟨_, decorator_relocate hbs h₁, Except.bind_eq_ok_iff.2 ⟨_,
      decorators_relocate hbs h₂ (.inl (ne_nil_of_decoratedRest h₃)), Except.bind_eq_ok_iff.2 ⟨_,
        decoratedRest_relocate hbs h₃, ?_⟩⟩⟩
    cases decl <;> rfl
  rw [if_neg hat] at h ⊢
  by_cases himport : t.isWord "import" && isImportDeclaration ts
  · rw [if_pos himport] at h ⊢
    obtain ⟨⟨decl, c₁⟩, h₁, h⟩ := Except.bind_eq_ok_iff.1 h
    cases h
    refine Except.bind_eq_ok_iff.2 ⟨_, importRest_relocate hbs h₁, ?_⟩
    cases decl <;> rfl
  rw [if_neg himport] at h ⊢
  by_cases hexport : t.isWord "export"
  · rw [if_pos hexport] at h ⊢
    obtain ⟨⟨decl, c₁⟩, h₁, h⟩ := Except.bind_eq_ok_iff.1 h
    cases h
    have hmore := hend.imp_left (ne_nil_of_not_endsInExport · hexport)
    refine Except.bind_eq_ok_iff.2 ⟨_, exportRest_relocate hbs h₁ (.inr hmore), ?_⟩
    cases decl <;> rfl
  rw [if_neg hexport] at h ⊢
  cases hclass : afterClassKeyword? (t :: ts) with
  | some c₁ =>
    rw [hclass] at h
    obtain ⟨⟨decl, c₂⟩, h₂, h⟩ := Except.bind_eq_ok_iff.1 h
    cases h
    exact Except.bind_eq_ok_iff.2 ⟨_, classRest_relocate h₂, rfl⟩
  | none =>
    rw [hclass] at h
    obtain ⟨c₁, h₁, h⟩ := Except.bind_eq_ok_iff.1 h
    cases h
    exact Except.bind_eq_ok_iff.2 ⟨_, skipStatement_relocate hbs h₁, rfl⟩

/-- A statement is read in the same way at the start of a line and inside of one. -/
theorem item_of_newlineBefore {i : Option Item} (newline : Bool) (h : item t ts = .ok (i, c)) :
    item { t with newlineBefore := newline } ts = .ok (i, c) := by
  have hword (word : String) : Token.isWord { t with newlineBefore := newline } word = t.isWord word :=
    rfl
  have hclass : afterClassKeyword? ({ t with newlineBefore := newline } :: ts) =
      afterClassKeyword? (t :: ts) := rfl
  have hskip {c : Cursor} (h : skipStatement t ts = .ok c) :
      skipStatement { t with newlineBefore := newline } ts = .ok c := by
    unfold skipStatement at h ⊢
    dsimp only
    split at h
    · exact h
    · exact h
    · cases h
    · exact h
  unfold item at h ⊢
  dsimp only
  rw [hword, hword, hclass]
  by_cases hsemi : t.kind = .semicolon
  · rw [if_pos hsemi] at h ⊢
    exact h
  rw [if_neg hsemi] at h ⊢
  by_cases hat : t.kind = .atSign
  · rw [if_pos hat] at h ⊢
    exact h
  rw [if_neg hat] at h ⊢
  by_cases himport : t.isWord "import" && isImportDeclaration ts
  · rw [if_pos himport] at h ⊢
    exact h
  rw [if_neg himport] at h ⊢
  by_cases hexport : t.isWord "export"
  · rw [if_pos hexport] at h ⊢
    exact h
  rw [if_neg hexport] at h ⊢
  cases hafter : afterClassKeyword? (t :: ts) with
  | some c₁ =>
    rw [hafter] at h
    exact h
  | none =>
    rw [hafter] at h
    obtain ⟨c₁, h₁, h⟩ := Except.bind_eq_ok_iff.1 h
    exact Except.bind_eq_ok_iff.2 ⟨c₁, hskip h₁, h⟩

/-! ## Outlines -/

namespace Outline

/-- The imports and classes of the first outline, and those of the second one after them. -/
instance : Append Outline where
  append o o' := ⟨o.imports ++ o'.imports, o.classes ++ o'.classes⟩

variable {o o' : Outline}

theorem append_empty (o : Outline) : o ++ (∅ : Outline) = o := by
  obtain ⟨imports, classes⟩ := o
  show Outline.mk (imports ++ []) (classes ++ []) = _
  rw [List.append_nil, List.append_nil]

theorem cons_append (o o' : Outline) (i : Option Item) : o.cons i ++ o' = (o ++ o').cons i := by
  rcases i with _ | i
  · rfl
  · cases i <;> rfl

theorem relocate_cons (o : Outline) (i : Option Item) :
    (o.cons i).relocate ρ = (o.relocate ρ).cons (i.map (Item.relocate ρ)) := by
  rcases i with _ | i
  · rfl
  · cases i <;> rfl

theorem ofTokens_of_newlineBefore (newline : Bool) (h : ofTokens (t :: ts) = .ok o) :
    ofTokens ({ t with newlineBefore := newline } :: ts) = .ok o := by
  obtain ⟨⟨i, c⟩, hi⟩ := exists_item_of_ofTokens h
  rwa [ofTokens_of_item (item_of_newlineBefore newline hi), ← ofTokens_of_item hi]

/-- Where tokens at another place are followed by a declaration, its outline follows theirs. -/
theorem ofTokens_relocate (hbs : StartLine bs) (h : ofTokens ts = .ok o)
    (hend : ¬EndsInExport ts ∨ bs = []) (h' : ofTokens bs = .ok o') :
    ofTokens (relocateAll ρ bs ts) = .ok (o.relocate ρ ++ o') := by
  fun_induction ofTokens ts generalizing o with
  | case1 =>
    cases h
    exact h'
  | case2 => cases h
  | case3 t ts i c hi ih =>
    obtain ⟨o₁, ho₁, h⟩ := Except.bind_eq_ok_iff.1 h
    cases h
    have hs : c.tokens <:+ t :: ts := (item_passes hi 0).suffix
    have hrest := ih ho₁ (hend.imp_left (· ∘ (EndsInExport.of_suffix · hs)))
    rw [Token.relocateAll_cons, ofTokens_of_item (item_relocate hbs hi hend), relocate_cons, cons_append]
    exact Except.bind_eq_ok_iff.2 ⟨_, hrest, rfl⟩

/-! ## Sources -/

theorem relocateAll_forth_zero (bs ts : List Token) : relocateAll (.forth 0) bs ts = ts ++ bs :=
  congrArg (· ++ bs) (List.map_id'' (fun _ => rfl) ts)

theorem relocate_forth_zero (o : Outline) : o.relocate (.forth 0) = o := by
  have himport (d : ImportDecl) : d.relocate (.forth 0) = d := by
    obtain ⟨_, _, _, _, _, attributes, _⟩ := d
    cases attributes <;> rfl
  have hclass (d : ClassDecl) : d.relocate (.forth 0) = d := by
    have hdecorators : d.decorators.map (Decorator.relocate (.forth 0)) = d.decorators :=
      List.map_id'' (fun _ => rfl) _
    rw [ClassDecl.relocate, hdecorators]
    rfl
  rw [relocate, List.map_id'' himport, List.map_id'' hclass]

theorem leads_of_mem_declarations (h : t.kind ∈ TokenKind.declarations) : t.kind.Leads := by
  simp only [TokenKind.declarations, List.mem_cons, List.not_mem_nil, or_false] at h
  rcases h with h | h | h | h | h
  · exact .inl h
  all_goals exact .inr ⟨_, h⟩

variable {a b : String}

theorem ofTokens_of_ofSource (h : ofSource a = .ok o) (hts : tokenize a = .ok ts) :
    ofTokens ts = .ok o := by
  rwa [ofSource, hts] at h

/-- The outline of a source and, on the lines after it, of a text that starts with a declaration: the
imports and classes of the source, and then those of the text, further on by the bytes of the source and
of the line end after it. What stands after a last `export` or `export default` would belong to that. -/
theorem ofSource_append_declaration (ha : ofSource a = .ok o) (hts : tokenize a = .ok ts)
    (hend : ¬EndsInExport ts) (hb : ofSource b = .ok o') (hus : tokenize b = .ok us)
    (hstarts : startsDeclaration us) (hfirst : us.head?.map (·.span.start) = some 0) :
    ofSource (a ++ "\n" ++ b) =
      .ok (o ++ o'.relocate (.forth (Text.byteLength a.toList + 1))) := by
  cases us with
  | nil => cases hfirst
  | cons u us =>
    have hleads := leads_of_mem_declarations (kind_mem_declarations hstarts)
    have htokens := tokenize_append_line hts hus hleads (Option.some.inj hfirst)
    generalize Relocation.forth (Text.byteLength a.toList + 1) = ρ at htokens ⊢
    -- The tokens of the declaration start a line now, which they need not have done before.
    have hline : StartLine (relocateAll ρ [] ({ u with newlineBefore := true } :: us)) := by
      rintro v vs ⟨⟩
      exact ⟨rfl, (startsDeclaration_relocate startLine_nil (List.cons_ne_nil _ us)).trans hstarts⟩
    have hafter : ofTokens (relocateAll ρ [] ({ u with newlineBefore := true } :: us)) =
        .ok (o'.relocate ρ ++ (∅ : Outline)) :=
      ofTokens_relocate startLine_nil
        (ofTokens_of_newlineBefore true (ofTokens_of_ofSource hb hus)) (.inr rfl) ofTokens_nil
    have hall : ofTokens (relocateAll (.forth 0) _ ts) = .ok (o.relocate (.forth 0) ++ _) :=
      ofTokens_relocate hline (ofTokens_of_ofSource ha hts) (.inl hend) hafter
    rw [relocateAll_forth_zero, relocate_forth_zero, append_empty] at hall
    have hmap : ({ u with newlineBefore := true } :: us).map (Token.relocate ρ) =
        relocateAll ρ [] ({ u with newlineBefore := true } :: us) := (List.append_nil _).symm
    rw [ofSource, htokens, hmap]
    exact hall

/-- A class with a decorator on the line after a statement without a semicolon. -/
theorem classAfterStatement_outline :
    let a := "import 'm'\nlet x = 1"
    let b := "@j class A \x7b \x7d"
    let imported : ImportDecl :=
      { specifier := "m", defaultBinding := none, namespaceBinding := none, named := []
        typeOnly := false, attributes := none, span := ⟨0, 10⟩ }
    let decl (n : Nat) : ClassDecl :=
      { name := some "A", decorators := [⟨"j", none, ⟨n, n + 2⟩⟩], exported := .notExported
        span := ⟨n, n + 14⟩, body := ⟨n + 11, n + 14⟩ }
    Outline.ofSource a = .ok ⟨[imported], []⟩ ∧ Outline.ofSource b = .ok ⟨[], [decl 0]⟩ ∧
      Outline.ofSource (a ++ "\n" ++ b) = .ok ⟨[imported], [decl 21]⟩ := by
  intro a b imported decl
  have ha : Outline.ofSource a = .ok ⟨[imported], []⟩ := by decide +kernel
  have hb : Outline.ofSource b = .ok ⟨[], [decl 0]⟩ := by decide +kernel
  have hts : tokenize a = .ok ((tokenize a).toOption.getD []) := by decide +kernel
  have hus : tokenize b = .ok ((tokenize b).toOption.getD []) := by decide +kernel
  have hend : ¬EndsInExport ((tokenize a).toOption.getD []) := by decide +kernel
  have hlength : Text.byteLength a.toList = 20 := by decide +kernel
  have hjoined :=
    ofSource_append_declaration ha hts hend hb hus (by decide +kernel) (by decide +kernel)
  rw [hlength] at hjoined
  exact ⟨ha, hb, hjoined⟩

end Outline

end JobBundler
