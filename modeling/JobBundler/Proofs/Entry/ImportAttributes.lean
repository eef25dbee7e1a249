import JobBundler.Proofs.Entry.ImportLexemes
import JobBundler.Proofs.Outline.Imports
import JobBundler.Proofs.Token.Balance
import JobBundler.Proofs.Token.Placement

/-!
# The attributes of imports

The attributes of an import are written again as they stand in the source. The same tokens are read of
them again if they can be read by themselves, and else none are (`AttributeLexemes.reads_or_fails`).
-/

namespace JobBundler

open Lexeme (Reads sources)

/-- The lexemes of attributes: the word `with` or `assert`, and a group up to the bracket that closes
it. -/
structure AttributeLexemes where
  keyword : String
  brace : Lexeme
  inner : List Lexeme
  last : Lexeme
  bracket : Bracket
  isKeyword : keyword = "with" ∨ keyword = "assert"
  opens : brace.kind = .opening .brace
  closes : last.kind = .closing bracket
  skips : ∀ gs t us, gs.map (·.kind) = inner.map (·.kind) → t.kind = last.kind →
    skipGroup 0 (gs ++ t :: us) = .ok (.past t us)

namespace AttributeLexemes

variable {x : AttributeLexemes} {ctx ctx' : Context} {gap rest : List Char}

/-- The lexemes after the keyword. -/
def group (x : AttributeLexemes) : List Lexeme :=
  x.brace :: x.inner ++ [x.last]

/-- The lexeme of the keyword. -/
def keywordAfter (gap : List Char) (x : AttributeLexemes) : Lexeme :=
  ⟨gap, x.keyword.toList, .ident x.keyword⟩

/-- All lexemes, with this gap before them. -/
def lexemesAfter (gap : List Char) (x : AttributeLexemes) : List Lexeme :=
  x.keywordAfter gap :: x.group

/-- The kinds of the tokens. -/
def kinds (x : AttributeLexemes) : List TokenKind :=
  .ident x.keyword :: x.group.map (·.kind)

theorem isName_keyword (x : AttributeLexemes) : Lexeme.IsName x.keyword := by
  rcases x.isKeyword with h | h <;> rw [h] <;>
    exact NamedImport.isName_of_isIdentifier (by decide)

theorem after_keyword (x : AttributeLexemes) (ctx : Context) (glued : Bool) :
    ctx.after glued (.ident x.keyword) = { ctx with regexAllowed := false } := by
  have hregex : TokenKind.allowsRegexAfter (.ident x.keyword) = false := by
    rcases x.isKeyword with h | h <;> rw [h] <;> decide
  simp [Context.after, hregex]

/-! ## Attributes of a source -/

variable {source : String} {y : Lexing} {as cs : List Lexeme}

/-- The attributes of a declaration are lexemes of the source, and not the first ones. -/
theorem exists_of_isAttributesOf (hy : Lexing.ofSource source.toList = .ok y) {t : Token}
    {us : List Token} {span : Span} (hs : t :: us <:+ Token.place 0 y.lexemes)
    (h : IsAttributesOf span us) :
    ∃ (x : AttributeLexemes) (gap : List Char) (as cs : List Lexeme), as ≠ [] ∧
      y.lexemes = as ++ (x.lexemesAfter gap ++ cs) ∧
      span = Token.stretch as (x.keywordAfter gap) x.group := by
  obtain ⟨w, b, gs, l, k, vs, hvs, hw, hb, hl, hskip, rfl⟩ := h
  obtain ⟨pre, hpre⟩ := hvs
  obtain ⟨front, hfront⟩ := hs
  have hplace : Token.place 0 y.lexemes = (front ++ t :: pre) ++ (w :: b :: (gs ++ l :: vs)) := by
    rw [← hfront, ← hpre, List.append_assoc, List.cons_append]
  obtain ⟨as, bs, hlexemes, has, hbs⟩ := Token.of_place_eq_append hplace
  have hne : as ≠ [] := by
    rintro rfl
    simp at has
  rcases bs with _ | ⟨lw, _ | ⟨lb, bs⟩⟩
  · cases hbs
  · simp [Token.place] at hbs
  rw [Token.place, Token.place, List.cons.injEq, List.cons.injEq] at hbs
  obtain ⟨rfl, rfl, hbs⟩ := hbs
  obtain ⟨lgs, cs, rfl, hgs, hcs⟩ := Token.of_place_eq_append hbs.symm
  rcases cs with _ | ⟨ll, cs⟩
  · cases hcs
  rw [Token.place, List.cons.injEq] at hcs
  obtain ⟨rfl, -⟩ := hcs
  have hkinds : gs.map (·.kind) = lgs.map (·.kind) := by
    rw [hgs, Token.map_kind_place]
  obtain ⟨name, hname, hkeyword⟩ : ∃ name, lw.kind = .ident name ∧
      (name = "with" ∨ name = "assert") := by
    rcases hw with hw | hw
    · exact ⟨"with", by simpa [Token.isWord] using hw, .inl rfl⟩
    · exact ⟨"assert", by simpa [Token.isWord] using hw, .inr rfl⟩
  obtain ⟨-, htext⟩ := Lexing.name_of_mem hy (l := lw) (by simp [hlexemes]) hname
  obtain ⟨gap, text, kind⟩ := lw
  dsimp only at hname htext
  subst hname htext
  refine ⟨⟨name, lb, lgs, ll, k, hkeyword, hb, hl, ?_⟩, gap, as, cs, hne, ?_, ?_⟩
  · intro gs' t' us' hgs' ht'
    exact skipGroup_of_kinds hskip (hgs'.trans hkinds.symm) ht' us'
  · simp [hlexemes, lexemesAfter, keywordAfter, group]
  · simp only [Token.stretch, keywordAfter, group, Lexeme.sources_append, Lexeme.sources_cons,
      Lexeme.sources_nil, Lexeme.source, Text.byteLength_append, Text.byteLength_nil,
      Span.mk.injEq, List.cons_append]
    omega

/-- The text of attributes of a source. -/
theorem slice_eq (hy : Lexing.ofSource source.toList = .ok y)
    (h : y.lexemes = as ++ (x.lexemesAfter gap ++ cs)) :
    ((Token.stretch as (x.keywordAfter gap) x.group).slice source).toList =
      sources (x.lexemesAfter []) := by
  have hsource : source.toList = sources (as ++ x.lexemesAfter gap) ++ (sources cs ++ y.trailing) := by
    rw [← Lexing.source_of_ofSource hy, h]
    simp
  rw [Token.slice_stretch as (x.keywordAfter gap) x.group hsource, String.toList_ofList]
  rfl

/-- The kinds of the tokens of attributes of a source. -/
theorem kinds_eq (hy : Lexing.ofSource source.toList = .ok y)
    (h : y.lexemes = as ++ (x.lexemesAfter gap ++ cs)) :
    ((Token.place 0 y.lexemes).filter
      ((Token.stretch as (x.keywordAfter gap) x.group).encloses ·.span)).map (·.kind) = x.kinds := by
  have hne := Lexing.text_ne_nil hy
  rw [h, lexemesAfter] at hne ⊢
  rw [Token.filter_encloses hne, Token.map_kind_place]
  rfl

/-! ## Reading attributes again -/

/-- The attributes are read in the same way after nothing and after a space, up to the context `ctx`. -/
def ReadsTo (x : AttributeLexemes) (ctx : Context) : Prop :=
  ∀ gap, gap = [] ∨ gap = [' '] → ∀ regexAllowed rest,
    Reads rest ⟨0, [], regexAllowed⟩ (x.lexemesAfter gap) ctx

/-- The attributes are not read, neither after nothing nor after a space. -/
def Fails (x : AttributeLexemes) : Prop :=
  ∀ gap, gap = [] ∨ gap = [' '] → ∀ regexAllowed rest,
    ∃ f, lexemesFrom ⟨0, [], regexAllowed⟩ (sources (x.lexemesAfter gap) ++ rest) = .error f

theorem reads_or_fails (hn : ctx.Nested) (h : Reads rest ctx (x.lexemesAfter gap) ctx') :
    (∃ ctx₁, x.ReadsTo ctx₁) ∨ x.Fails := by
  cases h with
  | cons head tail =>
    obtain ⟨-, -, hends, rfl⟩ := Lexeme.name_of_next head rfl
    rw [after_keyword, ← Context.around_nil] at tail
    have hnonempty : sources x.group ≠ [] := by
      have := tail.ne_nil (l := x.brace) (by simp [group])
      simp [group, Lexeme.source, this]
    have hnext {gap : List Char} (hgap : gap = [] ∨ gap = [' ']) (regexAllowed : Bool)
        (rest' : List Char) : Lexeme.next ⟨0, [], regexAllowed⟩
          ((x.keywordAfter gap).source ++ (sources x.group ++ rest')) =
            .ok (.lexeme (x.keywordAfter gap) ⟨0, [], false⟩ (sources x.group ++ rest')) := by
      have hends' : Lexeme.EndsName (sources x.group ++ rest') := by
        obtain ⟨c, cs, hcs⟩ := List.exists_cons_of_ne_nil hnonempty
        rw [hcs] at hends ⊢
        exact hends
      have hnext : Lexeme.next ⟨0, [], regexAllowed⟩
          (gap ++ (x.keyword.toList ++ (sources x.group ++ rest'))) = _ :=
        Lexeme.next_name x.isName_keyword hgap hends'
      rw [after_keyword, ← List.append_assoc] at hnext
      exact hnext
    rcases Lexeme.reads_of_around hn (Context.nested_nil _) tail with ⟨ctx₁, h₁⟩ | ⟨-, h₁⟩
    · exact .inl ⟨ctx₁, fun gap hgap r rest' =>
        .cons (hnext hgap r rest') (h₁.of_closing x.closes rest')⟩
    · refine .inr fun gap hgap r rest' => ?_
      obtain ⟨-, f, hf⟩ := h₁ rest'
      have hword : Reads (sources x.group ++ rest') ⟨0, [], r⟩ [x.keywordAfter gap] ⟨0, [], false⟩ :=
        .cons (hnext hgap r rest') .nil
      have hall := hword.lexemesFrom_eq
      rw [hf, ← List.append_assoc, ← Lexeme.sources_append] at hall
      exact ⟨_, hall⟩

theorem reads_or_fails_of_ofSource (hy : Lexing.ofSource source.toList = .ok y) (has : as ≠ [])
    (h : y.lexemes = as ++ (x.lexemesAfter gap ++ cs)) : (∃ ctx, x.ReadsTo ctx) ∨ x.Fails := by
  obtain ⟨ctx, hn, hreads⟩ := Lexing.reads_of_ofSource hy h has
  obtain ⟨ctx', hreads, -⟩ := hreads.of_append
  exact reads_or_fails hn hreads

/-- The attributes are read by themselves, and leave no substitution open. -/
def Stands (x : AttributeLexemes) : Prop :=
  ∃ ctx, x.ReadsTo ctx ∧ ctx.substitutions = []

theorem ReadsTo.not_fails (h : x.ReadsTo ctx) : ¬x.Fails := by
  intro hfails
  obtain ⟨f, hf⟩ := hfails [] (.inl rfl) true []
  rw [(h [] (.inl rfl) true []).lexemesFrom_eq, Lexing.lexemesFrom_nil] at hf
  cases hf

theorem head?_sources (x : AttributeLexemes) : (sources (x.lexemesAfter [])).head? ≠ some '#' := by
  rw [lexemesAfter, Lexeme.sources_cons, keywordAfter, Lexeme.source]
  rcases x.isKeyword with h | h <;> rw [h] <;> simp

/-- Attributes of a source can be read by themselves if and only if they stand. -/
theorem tokenize_slice_isOk_iff (hy : Lexing.ofSource source.toList = .ok y) (has : as ≠ [])
    (h : y.lexemes = as ++ (x.lexemesAfter gap ++ cs)) :
    (tokenize ((Token.stretch as (x.keywordAfter gap) x.group).slice source)).isOk ↔ x.Stands := by
  have htokenize : (tokenize ((Token.stretch as (x.keywordAfter gap) x.group).slice source)).isOk ↔
      ∃ z, Lexing.ofSource (sources (x.lexemesAfter [])) = .ok z := by
    rw [tokenize, slice_eq hy h]
    cases Lexing.ofSource (sources (x.lexemesAfter [])) <;> simp [Except.isOk, Except.toBool]
  rw [htokenize]
  constructor
  · rintro ⟨z, hz⟩
    rcases reads_or_fails_of_ofSource hy has h with ⟨ctx, hctx⟩ | hfails
    · have hreads := hctx [] (.inl rfl) true []
      exact ⟨ctx, hctx, ((Lexing.ofSource_sources_iff hreads x.head?_sources).1 hz).2⟩
    · obtain ⟨f, hf⟩ := hfails [] (.inl rfl) true []
      obtain ⟨z', hz', -⟩ := Lexing.ofSource_eq_ok_iff.1 hz
      rw [Lexing.hashbang_of_head? x.head?_sources] at hz'
      rw [List.append_nil] at hf
      exact absurd (hf.symm.trans hz') (by simp)
  · rintro ⟨ctx, hctx, hs⟩
    have hreads := hctx [] (.inl rfl) true []
    exact ⟨_, (Lexing.ofSource_sources_iff hreads x.head?_sources).2 ⟨rfl, hs⟩⟩

/-- Tokens of these kinds are read as attributes. -/
theorem importAttributes_of_tokens (x : AttributeLexemes) {c : Cursor} {w b t : Token}
    {gs us : List Token} (hc : c.tokens = w :: b :: (gs ++ t :: us)) (hw : w.kind = .ident x.keyword)
    (hb : b.kind = .opening .brace) (hgs : gs.map (·.kind) = x.inner.map (·.kind))
    (ht : t.kind = x.last.kind) :
    importAttributes c = .ok (some ⟨w.span.start, t.span.stop⟩, .past t us) := by
  have hword : (w.isWord "with" || w.isWord "assert") = true := by
    rcases x.isKeyword with h | h <;> simp [Token.isWord, hw, h]
  obtain ⟨kind, span, newline⟩ := b
  obtain rfl : kind = .opening .brace := hb
  unfold importAttributes
  rw [hc]
  dsimp only
  rw [if_pos hword, x.skips gs t us hgs ht]
  rfl

end AttributeLexemes

end JobBundler
