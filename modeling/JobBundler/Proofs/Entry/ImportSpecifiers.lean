import JobBundler.Proofs.Entry.ImportLexemes
import JobBundler.Proofs.Outline.Imports

/-!
# Reading reduced specifiers

The tokens of printed specifiers are read as the specifiers that they were printed of, if all of these
are readable (`NamedImport.IsReadable`), and else not at all.
-/

namespace JobBundler

open Lexeme

variable {c c' : Cursor} {k k' : TokenKind} {ks : List TokenKind}

/-! ## Cursors before tokens of some kinds -/

namespace Cursor

/-- The tokens after the cursor are of these kinds. -/
def Shows (c : Cursor) (ks : List TokenKind) : Prop :=
  c.tokens.map (·.kind) = ks

theorem Shows.exists_eq (h : c.Shows (k :: ks)) :
    ∃ span newline ts, c.tokens = ⟨k, span, newline⟩ :: ts ∧ c.advance.Shows ks := by
  obtain ⟨t, ts, ht, rfl, hts⟩ := List.map_eq_cons_iff.1 h
  refine ⟨t.span, t.newlineBefore, ts, ht, ?_⟩
  unfold advance
  rw [ht]
  exact hts

theorem Shows.advance (h : c.Shows (k :: ks)) : c.advance.Shows ks :=
  h.exists_eq.choose_spec.choose_spec.choose_spec.2

theorem Shows.atKind_eq (h : c.Shows (k :: ks)) (k' : TokenKind) : c.atKind k' = (k == k') := by
  obtain ⟨span, newline, ts, ht, -⟩ := h.exists_eq
  rw [atKind, ht]
  rfl

theorem Shows.atWord_eq (h : c.Shows (k :: ks)) (w : String) : c.atWord w = (k == .ident w) :=
  h.atKind_eq _

theorem Shows.expectWord_eq {w : String} (h : c.Shows (.ident w :: ks)) :
    c.expectWord w = .ok c.advance := by
  rw [expectWord, h.atWord_eq, if_pos (beq_self_eq_true _)]

theorem Shows.expectName_eq {name : String} (h : c.Shows (.ident name :: ks))
    (expected : Expectation) : c.expectName expected = .ok (name, c.advance) := by
  obtain ⟨span, newline, ts, ht, -⟩ := h.exists_eq
  unfold expectName
  rw [ht]

theorem Shows.typeModifier?_eq (h : c.Shows (k :: k' :: ks)) (modifies : TokenKind → Bool) :
    typeModifier? modifies c =
      if k = .ident "type" ∧ modifies k' then some c.advance else none := by
  obtain ⟨span, newline, ts, ht, hts⟩ := h.exists_eq
  have hadvance : c.advance = .past ⟨k, span, newline⟩ ts := by
    rw [Cursor.advance, ht]
  rw [hadvance] at hts
  obtain ⟨span', newline', ts', hts', -⟩ := hts.exists_eq
  obtain rfl : ts = ⟨k', span', newline'⟩ :: ts' := hts'
  unfold typeModifier?
  rw [ht, hadvance]
  simp [Token.isWord]

end Cursor

/-! ## Specifiers between braces -/

namespace NamedImport

/-- A name that needs quotes has to be renamed, and `type as` does not mark a name `as`. -/
def IsReadable (n : NamedImport) : Prop :=
  (n.imported = n.binding → isIdentifier n.imported) ∧ ¬(n.typeOnly ∧ n.imported = "as")

/-- The kinds of the tokens of a specifier. -/
def kinds (n : NamedImport) : List TokenKind :=
  n.lexemes.map (·.kind)

/-- The kind of the token of the imported name. -/
def importedKind (n : NamedImport) : TokenKind :=
  if isIdentifier n.imported then .ident n.imported else .str n.imported

theorem kinds_eq (n : NamedImport) :
    n.kinds = (if n.typeOnly then [.ident "type"] else []) ++ n.importedKind ::
      if n.imported = n.binding then [] else [.ident "as", .ident n.binding] := by
  unfold kinds lexemes importedKind
  split <;> split <;> split <;> rfl

/-- What may stand after a specifier. -/
def IsSeparator (k : TokenKind) : Prop :=
  k = .comma ∨ k = .closing .brace

theorem IsSeparator.not_marksSpecifier (h : IsSeparator k) : marksSpecifier k = false := by
  rcases h with rfl | rfl <;> rfl

theorem IsSeparator.ne_ident (h : IsSeparator k) (name : String) : (k == .ident name) = false := by
  rcases h with rfl | rfl <;> rfl

/-- The cursor after the word `type` of a specifier. -/
theorem typeModifier?_of_shows {n : NamedImport} (h : c.Shows (n.kinds ++ k :: ks))
    (hk : IsSeparator k) (hn : n.typeOnly → marksSpecifier n.importedKind) :
    (typeModifier? marksSpecifier c).isSome = n.typeOnly ∧
      ((typeModifier? marksSpecifier c).getD c).Shows (n.importedKind ::
        ((if n.imported = n.binding then [] else [.ident "as", .ident n.binding]) ++ k :: ks)) := by
  rw [kinds_eq] at h
  by_cases ht : n.typeOnly
  · rw [if_pos ht, List.append_assoc] at h
    rw [h.typeModifier?_eq marksSpecifier, if_pos ⟨rfl, hn ht⟩]
    exact ⟨ht.symm, h.advance⟩
  · rw [if_neg ht, List.nil_append, List.cons_append] at h
    have hnone : typeModifier? marksSpecifier c = none := by
      split at h
      · rw [List.nil_append] at h
        rw [h.typeModifier?_eq, if_neg (by simp [hk.not_marksSpecifier])]
      · rw [List.cons_append] at h
        rw [h.typeModifier?_eq, if_neg (by rintro ⟨-, ⟨⟩⟩)]
    rw [hnone]
    exact ⟨by simpa using ht, h⟩

theorem importSpecifier_of_isReadable {n : NamedImport} (h : c.Shows (n.kinds ++ k :: ks))
    (hk : IsSeparator k) (hn : n.IsReadable) :
    ∃ c', importSpecifier c = .ok (n, c') ∧ c'.Shows (k :: ks) := by
  have hmarks : n.typeOnly → marksSpecifier n.importedKind := by
    intro ht
    unfold importedKind
    split
    · exact bne_iff_ne.2 fun has => hn.2 ⟨ht, has⟩
    · rfl
  obtain ⟨htype, hshows⟩ := typeModifier?_of_shows h hk hmarks
  unfold importSpecifier
  dsimp only
  generalize typeModifier? marksSpecifier c = modified at htype hshows ⊢
  generalize modified.getD c = c₁ at hshows ⊢
  obtain ⟨imported, binding, typeOnly⟩ := n
  dsimp only at htype
  subst htype
  obtain ⟨span, newline, ts, ht, hadvance⟩ := hshows.exists_eq
  by_cases hi : isIdentifier imported
  · rw [importedKind, if_pos hi] at ht
    rw [ht]
    dsimp only at hadvance ⊢
    by_cases heq : imported = binding
    · rw [if_pos heq, List.nil_append] at hadvance
      rw [hadvance.atWord_eq, hk.ne_ident, heq]
      exact ⟨_, rfl, hadvance⟩
    · rw [if_neg heq, List.cons_append, List.cons_append, List.nil_append] at hadvance
      rw [hadvance.atWord_eq, beq_self_eq_true, if_pos rfl, hadvance.advance.expectName_eq]
      exact ⟨_, rfl, hadvance.advance.advance⟩
  · rw [importedKind, if_neg hi] at ht
    rw [ht]
    dsimp only at hadvance ⊢
    rw [if_neg fun heq => hi (hn.1 heq), List.cons_append, List.cons_append, List.nil_append] at hadvance
    rw [hadvance.expectWord_eq]
    simp only [bind, Except.bind]
    rw [hadvance.advance.expectName_eq]
    exact ⟨_, rfl, hadvance.advance.advance⟩

/-- What is not readable is an error, at the latest where a separator should stand. -/
theorem importSpecifier_of_not_isReadable {n : NamedImport} (h : c.Shows (n.kinds ++ k :: ks))
    (hk : IsSeparator k) (hn : ¬n.IsReadable) {m : NamedImport}
    (hm : importSpecifier c = .ok (m, c')) : c'.atKind .comma = false ∧
      c'.atKind (.closing .brace) = false := by
  unfold importSpecifier at hm
  dsimp only at hm
  by_cases has : n.typeOnly ∧ n.imported = "as"
  · -- The word `type` is taken for the name, and `as` for the word after it.
    have hkind : n.importedKind = .ident "as" := by
      rw [importedKind, has.2, if_pos (by decide)]
    rw [kinds_eq, if_pos has.1, hkind, List.cons_append, List.nil_append, List.cons_append,
      List.cons_append] at h
    rw [h.typeModifier?_eq, if_neg (by rintro ⟨-, ⟨⟩⟩), Option.getD_none] at hm
    obtain ⟨span, newline, ts, ht, h⟩ := h.exists_eq
    rw [ht] at hm
    dsimp only at hm
    rw [h.atWord_eq, beq_self_eq_true, if_pos rfl] at hm
    have h := h.advance
    by_cases heq : n.imported = n.binding
    · rw [if_pos heq, List.nil_append] at h
      obtain ⟨span', newline', ts', ht', -⟩ := h.exists_eq
      rw [Cursor.expectName, ht'] at hm
      rcases hk with rfl | rfl <;> cases hm
    · rw [if_neg heq, List.cons_append, List.cons_append, List.nil_append] at h
      rw [h.expectName_eq] at hm
      cases hm
      exact ⟨h.advance.atKind_eq _, h.advance.atKind_eq _⟩
  · -- A quoted name is followed by a separator.
    obtain ⟨heq, hi⟩ : n.imported = n.binding ∧ ¬isIdentifier n.imported := by
      by_contra hcon
      exact hn ⟨fun heq => by_contra fun hi => hcon ⟨heq, hi⟩, has⟩
    have hkind : n.importedKind = .str n.imported := by
      rw [importedKind, if_neg hi]
    obtain ⟨-, hshows⟩ := typeModifier?_of_shows h hk (fun _ => by rw [hkind]; rfl)
    generalize (typeModifier? marksSpecifier c).getD c = c₁ at hm hshows
    rw [hkind, if_pos heq, List.nil_append] at hshows
    obtain ⟨span, newline, ts, ht, hadvance⟩ := hshows.exists_eq
    rw [ht] at hm
    dsimp only at hm
    rw [Cursor.expectWord, hadvance.atWord_eq, hk.ne_ident, if_neg Bool.false_ne_true] at hm
    cases hm

/-- The kinds of the tokens of specifiers and of the brace after them. -/
def listKinds (ns : List NamedImport) : List TokenKind :=
  (listLexemes ns).map (·.kind) ++ [.closing .brace]

theorem listKinds_cons_cons (n m : NamedImport) (ns : List NamedImport) :
    listKinds (n :: m :: ns) = n.kinds ++ .comma :: listKinds (m :: ns) := by
  simp [listKinds, listLexemes, kinds, comma]

theorem atKind_closing_of_shows {n : NamedImport} (h : c.Shows (n.kinds ++ ks)) :
    c.atKind (.closing .brace) = false := by
  rw [kinds_eq] at h
  by_cases ht : n.typeOnly
  · rw [if_pos ht, List.append_assoc] at h
    exact h.atKind_eq _
  · rw [if_neg ht, List.nil_append, List.cons_append] at h
    rw [h.atKind_eq, importedKind]
    split <;> rfl

theorem importSpecifiers_of_ok {n : NamedImport} (h : c.atKind (.closing .brace) = false)
    (hn : importSpecifier c = .ok (n, c')) :
    importSpecifiers c =
      if c'.atKind .comma then do
        let (ns, c'') ← importSpecifiers c'.advance
        return (n :: ns, c'')
      else if c'.atKind (.closing .brace) then .ok ([n], c'.advance)
      else .error (c'.unexpected .commaOrBrace) := by
  rw [importSpecifiers, if_neg (by simp [h])]
  split
  · rename_i he
    rw [hn] at he
    cases he
  · rename_i he
    rw [hn] at he
    cases he
    rfl

theorem importSpecifiers_of_isReadable {ns : List NamedImport} (h : c.Shows (listKinds ns ++ ks))
    (hns : ∀ n ∈ ns, n.IsReadable) :
    ∃ c', importSpecifiers c = .ok (ns, c') ∧ c'.Shows ks := by
  induction ns generalizing c with
  | nil =>
    rw [importSpecifiers, if_pos (by rw [h.atKind_eq]; rfl)]
    exact ⟨_, rfl, h.advance⟩
  | cons n ns ih =>
    have hn := hns n List.mem_cons_self
    cases ns with
    | nil =>
      have h : c.Shows (n.kinds ++ .closing .brace :: ks) := by
        simpa [listKinds, listLexemes, kinds] using h
      obtain ⟨c₁, h₁, hshows⟩ := importSpecifier_of_isReadable h (.inr rfl) hn
      rw [importSpecifiers_of_ok (atKind_closing_of_shows h) h₁, hshows.atKind_eq, hshows.atKind_eq]
      exact ⟨_, rfl, hshows.advance⟩
    | cons m ns =>
      rw [listKinds_cons_cons, List.append_assoc, List.cons_append] at h
      obtain ⟨c₁, h₁, hshows⟩ := importSpecifier_of_isReadable h (.inl rfl) hn
      obtain ⟨c₂, h₂, hrest⟩ := ih hshows.advance fun n hn => hns n (List.mem_cons_of_mem _ hn)
      rw [importSpecifiers_of_ok (atKind_closing_of_shows h) h₁, hshows.atKind_eq, h₂]
      exact ⟨_, rfl, hrest⟩

theorem importSpecifiers_eq_ok_cons {ns : List NamedImport}
    (hc : c.atKind (.closing .brace) = false) (h : importSpecifiers c = .ok (ns, c')) :
    ∃ n c₁, importSpecifier c = .ok (n, c₁) ∧
      (c₁.atKind .comma ∧ (∃ ms, importSpecifiers c₁.advance = .ok (ms, c')) ∨
        c₁.atKind (.closing .brace)) := by
  cases hn : importSpecifier c with
  | error e =>
    rw [importSpecifiers, if_neg (by simp [hc])] at h
    split at h
    · cases h
    · rename_i hn'
      rw [hn] at hn'
      cases hn'
  | ok x =>
    obtain ⟨n, c₁⟩ := x
    rw [importSpecifiers_of_ok hc hn] at h
    refine ⟨n, c₁, rfl, ?_⟩
    split at h
    · rename_i hcomma
      obtain ⟨⟨ms, c₂⟩, hms, h⟩ := Except.bind_eq_ok_iff.1 h
      cases h
      exact .inl ⟨hcomma, ms, hms⟩
    · split at h
      · exact .inr ‹_›
      · cases h

theorem isReadable_of_importSpecifiers {ns ms : List NamedImport}
    (h : c.Shows (listKinds ns ++ ks)) (hms : importSpecifiers c = .ok (ms, c')) :
    ∀ n ∈ ns, n.IsReadable := by
  have hfirst {n : NamedImport} {k : TokenKind} {ks : List TokenKind} (hk : IsSeparator k)
      {c : Cursor} {ms : List NamedImport} (h : c.Shows (n.kinds ++ k :: ks))
      (hms : importSpecifiers c = .ok (ms, c')) : n.IsReadable := by
    by_contra hn
    obtain ⟨m, c₁, hm, hend⟩ := importSpecifiers_eq_ok_cons (atKind_closing_of_shows h) hms
    obtain ⟨hcomma, hbrace⟩ := importSpecifier_of_not_isReadable h hk hn hm
    rw [hcomma, hbrace] at hend
    rcases hend with ⟨⟨⟩, -⟩ | ⟨⟨⟩⟩
  induction ns generalizing c ms with
  | nil => simp
  | cons n ns ih =>
    cases ns with
    | nil =>
      have h : c.Shows (n.kinds ++ .closing .brace :: ks) := by
        simpa [listKinds, listLexemes, kinds] using h
      intro m hm
      obtain rfl := List.mem_singleton.1 hm
      exact hfirst (.inr rfl) h hms
    | cons m ns =>
      rw [listKinds_cons_cons, List.append_assoc, List.cons_append] at h
      have hn := hfirst (.inl rfl) h hms
      obtain ⟨c₁, h₁, hshows⟩ := importSpecifier_of_isReadable h (.inl rfl) hn
      obtain ⟨m', c₂, h₂, hend⟩ := importSpecifiers_eq_ok_cons (atKind_closing_of_shows h) hms
      rw [h₁] at h₂
      cases h₂
      rw [hshows.atKind_eq (.closing .brace)] at hend
      obtain ⟨-, ms', hms'⟩ := hend.resolve_right (by rintro ⟨⟩)
      intro n' hn'
      rcases List.mem_cons.1 hn' with rfl | hn'
      · exact hn
      · exact ih hshows.advance hms' n' hn'

end NamedImport

end JobBundler
