import JobBundler.Proofs.Entry.ImportAttributes
import JobBundler.Proofs.Entry.ImportReading
import JobBundler.Proofs.Path.Specifier

/-!
# What reduced imports bind

The lines of a reduced import bind the names in use as the import does, if the names between braces
are readable and the attributes can be read by themselves (`reduce_readsBack_iff`). Else no module can
be read from them.
-/

namespace JobBundler

open Lexeme (sources)

/-! ## What an import binds -/

/-- What a local name stands for in the imported module. -/
inductive BindingKind where
  | byDefault
  | byNamespace
  | byName (imported : String)
  deriving DecidableEq, Repr

structure LocalBinding where
  kind : BindingKind
  name : String
  /-- The name or its declaration is marked `type`. -/
  typeOnly : Bool
  deriving DecidableEq, Repr

namespace ImportDecl

/-- The local names that the declaration binds, with what they stand for. -/
def locals (d : ImportDecl) : List LocalBinding :=
  d.defaultBinding.toList.map (⟨.byDefault, ·, d.typeOnly⟩) ++
    d.namespaceBinding.toList.map (⟨.byNamespace, ·, d.typeOnly⟩) ++
    d.named.map fun n => ⟨.byName n.imported, n.binding, d.typeOnly || n.typeOnly⟩

/-- The kinds of the tokens of the attributes. -/
def attributeKinds (source : String) (d : ImportDecl) : Option (List TokenKind) :=
  d.attributes.map fun span =>
    match tokenize source with
    | .ok ts => (ts.filter (span.encloses ·.span)).map (·.kind)
    | .error _ => []

/-- The lines of the reduced import as one text. -/
def reducedText (used : NameSet) (source : String) (sourceDir entryDir : Path) (d : ImportDecl) :
    String :=
  "\n".intercalate (d.reduce used source sourceDir entryDir)

/-- The lines of the reduced import can be read, and bind the names in `used` as the import does, from
the rebased specifier and with the same attributes. -/
def ReadsBack (used : NameSet) (source : String) (sourceDir entryDir : Path) (d : ImportDecl) :
    Prop :=
  ∃ o, Outline.ofSource (d.reducedText used source sourceDir entryDir) = .ok o ∧ o.classes = [] ∧
    o.imports.flatMap locals = d.locals.filter (used.contains ·.name) ∧
    ∀ d' ∈ o.imports, d'.specifier = Specifier.rebase d.specifier sourceDir entryDir ∧
      d'.attributeKinds (d.reducedText used source sourceDir entryDir) = d.attributeKinds source

theorem locals_keep (used : NameSet) (d : ImportDecl) :
    (d.keep used).locals = d.locals.filter (used.contains ·.name) := by
  have hoption (o : Option String) (f : String → LocalBinding) (hf : ∀ name, (f name).name = name) :
      (o.filter used.contains).toList.map f =
        (o.toList.map f).filter (used.contains ·.name) := by
    cases o with
    | none => rfl
    | some name =>
      simp only [Option.filter_some, Option.toList_some]
      split <;> simp [*]
  simp only [locals, keep, List.filter_append, List.filter_map,
    hoption _ (⟨.byDefault, ·, d.typeOnly⟩) fun _ => rfl,
    hoption _ (⟨.byNamespace, ·, d.typeOnly⟩) fun _ => rfl]
  rfl

theorem locals_withSource (d : ImportDecl) (specifier : String) (a : Option Span) (span : Span) :
    (d.withSource specifier a span).locals = d.locals :=
  rfl

end ImportDecl

/-! ## The line of a reduced import -/

/-- The lexemes of attributes that may be missing, after a space. -/
def AttributeLexemes.tail (x : Option AttributeLexemes) : List Lexeme :=
  x.elim [] (·.lexemesAfter [' '])

/-- The span of attributes after the lexemes `as`. -/
def AttributeLexemes.spanAfter (as : List Lexeme) (a : AttributeLexemes) : Span :=
  Token.stretch as (a.keywordAfter [' ']) a.group

/-- The attributes of the declaration are these lexemes of the source. -/
structure ImportDecl.HasAttributes (source : String) (x : Option AttributeLexemes)
    (d : ImportDecl) : Prop where
  text : (d.attributeText source).toList = sources (AttributeLexemes.tail x)
  kinds : d.attributeKinds source = x.map (·.kinds)
  stands : (∀ span, d.attributes = some span → (tokenize (span.slice source)).isOk) ↔
    ∀ a ∈ x, a.Stands
  reads : ∀ a ∈ x, (∃ ctx, a.ReadsTo ctx) ∨ a.Fails

namespace ImportDecl

variable {d : ImportDecl} {x : Option AttributeLexemes} {source : String} {o : Outline}

theorem exists_hasAttributes (ho : Outline.ofSource source = .ok o) (hd : d ∈ o.imports) :
    ∃ x, d.HasAttributes source x := by
  obtain ⟨y, hy, ho⟩ := Outline.ofSource_eq_ok_iff.1 ho
  obtain ⟨t, us, hs, hread⟩ := Outline.exists_of_mem_imports ho hd
  cases ha : d.attributes with
  | none =>
    refine ⟨none, ⟨?_, ?_, ?_, by simp⟩⟩
    · simp [attributeText, ha, AttributeLexemes.tail]
    · simp [attributeKinds, ha]
    · simp [ha]
  | some span =>
    obtain ⟨a, gap, as, cs, has, hlexemes, rfl⟩ :=
      AttributeLexemes.exists_of_isAttributesOf hy hs (hread.attributes span ha)
    refine ⟨some a, ⟨?_, ?_, ?_, ?_⟩⟩
    · rw [attributeText, ha]
      dsimp only
      rw [String.toList_append, AttributeLexemes.slice_eq hy hlexemes]
      rfl
    · rw [attributeKinds, ha, Lexing.tokenize_eq hy]
      exact congrArg some (AttributeLexemes.kinds_eq hy hlexemes)
    · have hstands := AttributeLexemes.tokenize_slice_isOk_iff hy has hlexemes
      simpa [ha] using hstands
    · simpa using AttributeLexemes.reads_or_fails_of_ofSource hy has hlexemes

theorem isPrintable_of_mem (ho : Outline.ofSource source = .ok o) (hd : d ∈ o.imports)
    (hnamed : ∀ n ∈ d.named, Lexeme.OnOneLine n.imported.toList) : d.IsPrintable := by
  obtain ⟨y, hy, ho⟩ := Outline.ofSource_eq_ok_iff.1 ho
  obtain ⟨t, us, hs, hread⟩ := Outline.exists_of_mem_imports ho hd
  refine ⟨fun b hb => ?_, hnamed⟩
  obtain ⟨u, hu, hkind⟩ := hread.bindings b hb
  have hmem : u.kind ∈ (Token.place 0 y.lexemes).map (·.kind) :=
    List.mem_map_of_mem (hs.mem (List.mem_cons_of_mem t hu))
  rw [Token.map_kind_place] at hmem
  obtain ⟨l, hl, hlkind⟩ := List.mem_map.1 hmem
  exact (Lexing.name_of_mem hy hl (hlkind.trans hkind)).1

/-- The lexemes of the line that `d` is printed as. -/
def lineLexemes (specifier : String) (x : Option AttributeLexemes) (d : ImportDecl) : List Lexeme :=
  d.head specifier ++ (AttributeLexemes.tail x ++ [Lexeme.semicolon])

theorem head?_lineLexemes (specifier : String) (x : Option AttributeLexemes) (d : ImportDecl) :
    (sources (d.lineLexemes specifier x)).head? ≠ some '#' := by
  simp [lineLexemes, head, Lexeme.source]

theorem startsApart_tail (x : Option AttributeLexemes) :
    Lexeme.StartsApart (sources (AttributeLexemes.tail x ++ [Lexeme.semicolon]) ++ []) := by
  cases x <;> rfl

/-- What the attributes of a line are read as decides about the line. -/
theorem ofSource_line_iff {specifier : String} (x : Option AttributeLexemes) (hd : d.IsPrintable)
    (hs : Lexeme.OnOneLine specifier.toList) :
    ∃ b, ∀ ctx, Lexeme.Reads (sources [Lexeme.semicolon] ++ []) ⟨0, [], b⟩ (AttributeLexemes.tail x) ctx →
      ∀ y, Lexing.ofSource (sources (d.lineLexemes specifier x)) = .ok y ↔
        y = ⟨d.lineLexemes specifier x, [], ctx.after true .semicolon⟩ ∧ ctx.substitutions = [] := by
  obtain ⟨b, hhead⟩ := reads_head hd hs (startsApart_tail x)
  refine ⟨b, fun ctx hx y => ?_⟩
  have hsemicolon : Lexeme.Reads [] ctx [Lexeme.semicolon] (ctx.after true .semicolon) :=
    .cons (Lexeme.next_semicolon ctx _) .nil
  exact Lexing.ofSource_sources_iff (hhead.append (hx.append hsemicolon))
    (d.head?_lineLexemes specifier x)

/-- A line whose attributes fail is not read. -/
theorem ofSource_line_of_fails {specifier : String} {a : AttributeLexemes} (hd : d.IsPrintable)
    (hs : Lexeme.OnOneLine specifier.toList) (ha : a.Fails) (y : Lexing) :
    Lexing.ofSource (sources (d.lineLexemes specifier (some a))) ≠ .ok y := by
  intro hy
  obtain ⟨b, hhead⟩ := reads_head hd hs (startsApart_tail (some a))
  obtain ⟨f, hf⟩ := ha [' '] (.inr rfl) b (sources [Lexeme.semicolon])
  obtain ⟨z, hz, -⟩ := Lexing.ofSource_eq_ok_iff.1 hy
  have hall := hhead.lexemesFrom_eq
  rw [List.append_nil, Lexeme.sources_append, AttributeLexemes.tail, Option.elim_some, hf] at hall
  rw [Lexing.hashbang_of_head? (d.head?_lineLexemes specifier _)] at hz
  rw [lineLexemes, Lexeme.sources_append, Lexeme.sources_append, AttributeLexemes.tail,
    Option.elim_some] at hz
  exact absurd (hall.symm.trans hz) (by simp)

/-- A line is read as its lexemes if its attributes stand, and else not at all. -/
theorem ofSource_line {specifier : String} (hd : d.IsPrintable)
    (hs : Lexeme.OnOneLine specifier.toList)
    (hx : ∀ a ∈ x, (∃ ctx, a.ReadsTo ctx) ∨ a.Fails) :
    ((∃ y, Lexing.ofSource (sources (d.lineLexemes specifier x)) = .ok y) ↔ ∀ a ∈ x, a.Stands) ∧
      ∀ y, Lexing.ofSource (sources (d.lineLexemes specifier x)) = .ok y →
        y.lexemes = d.lineLexemes specifier x := by
  obtain ⟨b, hiff⟩ := ofSource_line_iff x hd hs
  cases x with
  | none =>
    have hiff := hiff _ .nil
    refine ⟨⟨by simp, fun _ => ⟨_, (hiff _).2 ⟨rfl, rfl⟩⟩⟩, fun y hy => ?_⟩
    rw [((hiff y).1 hy).1]
  | some a =>
    have hiff {ctx : Context} (h : a.ReadsTo ctx) := hiff ctx (h [' '] (.inr rfl) b _)
    rcases hx a rfl with ⟨ctx, hctx⟩ | hfails
    · refine ⟨⟨?_, ?_⟩, fun y hy => ?_⟩
      · rintro ⟨y, hy⟩ _ ⟨⟩
        exact ⟨ctx, hctx, ((hiff hctx y).1 hy).2⟩
      · intro hstands
        obtain ⟨ctx', hctx', hsubs⟩ := hstands a rfl
        exact ⟨_, (hiff hctx' _).2 ⟨rfl, hsubs⟩⟩
      · rw [((hiff hctx y).1 hy).1]
    · refine ⟨⟨?_, ?_⟩, fun y hy => ?_⟩
      · rintro ⟨y, hy⟩
        exact absurd hy (ofSource_line_of_fails hd hs hfails y)
      · intro hstands
        obtain ⟨ctx, hctx, -⟩ := hstands a rfl
        exact absurd hfails hctx.not_fails
      · exact absurd hy (ofSource_line_of_fails hd hs hfails y)

/-! ## The outline of a line -/

theorem map_kind_head (d : ImportDecl) (specifier : String) :
    (d.head specifier).map (·.kind) = .ident "import" :: (d.restKinds ++ [.str specifier]) := by
  have hmark : (if d.typeOnly then [Lexeme.word "type"] else []).map (·.kind) =
      if d.typeOnly then [.ident "type"] else [] := by
    split <;> rfl
  rw [head, restKinds, List.map_cons, List.map_append, List.map_append, hmark,
    map_kind_clauseLexemes, List.append_assoc, List.append_assoc]
  rfl

/-- The attributes are read where they stand. -/
theorem importAttributes_of_place {as : List Lexeme} {c : Cursor}
    (hc : c.tokens = Token.place (Text.byteLength (sources as))
      (AttributeLexemes.tail x ++ [Lexeme.semicolon])) :
    ∃ c', importAttributes c = .ok (x.map (AttributeLexemes.spanAfter as), c') ∧
      c'.Shows [.semicolon] := by
  cases x with
  | none =>
    refine ⟨c, ?_, ?_⟩
    · unfold importAttributes
      rw [hc]
      rfl
    · rw [Cursor.Shows, hc]
      rfl
  | some a =>
    rw [AttributeLexemes.tail, Option.elim_some, AttributeLexemes.lexemesAfter,
      AttributeLexemes.group, List.cons_append, List.cons_append, List.cons_append,
      List.append_assoc, Token.place, Token.place, Token.place_append] at hc
    have hread := a.importAttributes_of_tokens hc rfl a.opens (Token.map_kind_place _ _) rfl
    refine ⟨_, hread.trans (congrArg (fun span => Except.ok (some span, _)) ?_), ?_⟩
    · rw [AttributeLexemes.spanAfter, Token.stretch, Span.mk.injEq]
      constructor
      · simp
      · simp [AttributeLexemes.group, Lexeme.source]
        omega
    · rfl

theorem exists_tokens_of_line (d : ImportDecl) (specifier : String) (x : Option AttributeLexemes) :
    ∃ t ts, Token.place 0 (d.lineLexemes specifier x) = t :: ts ∧ t.kind = .ident "import" ∧
      ts.map (·.kind) = d.restKinds ++ .str specifier ::
        (AttributeLexemes.tail x ++ [Lexeme.semicolon]).map (·.kind) := by
  have hkinds := Token.map_kind_place 0 (d.lineLexemes specifier x)
  rw [lineLexemes, List.map_append, map_kind_head, List.cons_append, List.append_assoc] at hkinds
  obtain ⟨t, ts, hts, ht, hkinds⟩ := List.map_eq_cons_iff.1 hkinds
  exact ⟨t, ts, hts, ht, hkinds⟩

/-- The tokens of a line with readable names are those of one declaration. -/
theorem ofTokens_line (halone : d.namespaceBinding = none ∨ d.named = [])
    (hfrom : d.typeOnly → d.defaultBinding ≠ some "from") (hn : ∀ n ∈ d.named, n.IsReadable)
    (specifier : String) (x : Option AttributeLexemes) :
    ∃ span, Outline.ofTokens (Token.place 0 (d.lineLexemes specifier x)) =
      .ok ⟨[d.withSource specifier (x.map (AttributeLexemes.spanAfter (d.head specifier))) span],
        []⟩ := by
  obtain ⟨t, ts, hts, ht, hkinds⟩ := d.exists_tokens_of_line specifier x
  obtain ⟨c₁, hc₁, hsuffix, hrest⟩ :=
    importRest_of_isReadable t.span.start (c := .past t ts) halone hfrom hn hkinds
  have htail : c₁.advance.tokens = Token.place (Text.byteLength (sources (d.head specifier)))
      (AttributeLexemes.tail x ++ [Lexeme.semicolon]) := by
    have hplace := Token.place_append 0 (d.head specifier)
      (AttributeLexemes.tail x ++ [Lexeme.semicolon])
    rw [Nat.zero_add] at hplace
    rw [lineLexemes, hplace] at hts
    have hs : c₁.advance.tokens <:+ t :: ts :=
      (c₁.advance_suffix.trans hsuffix).trans (List.suffix_cons t ts)
    rw [← hts] at hs
    have hlength := congrArg List.length hc₁.advance
    rw [List.length_map, List.length_map, ← Token.length_place] at hlength
    exact (List.suffix_of_suffix_length_le hs (List.suffix_append _ _) (Nat.le_of_eq hlength)).eq_of_length
      hlength
  obtain ⟨c₂, hattributes, hc₂⟩ := importAttributes_of_place htail
  obtain ⟨span, hdecl⟩ := importTail_of_shows t.span.start hc₁ hattributes hc₂ rfl
  refine ⟨span, ?_⟩
  have hitem := Outline.item_of_import ht (isImportDeclaration_of_restKinds hkinds)
  rw [hrest, hdecl] at hitem
  rw [hts, Outline.ofTokens_of_item hitem, List.map_eq_nil_iff.1 hc₂.advance, Outline.ofTokens_nil]
  rfl

theorem isReadable_of_ofTokens_line (halone : d.namespaceBinding = none ∨ d.named = [])
    (hfrom : d.typeOnly → d.defaultBinding ≠ some "from") {specifier : String}
    (h : Outline.ofTokens (Token.place 0 (d.lineLexemes specifier x)) = .ok o) :
    ∀ n ∈ d.named, n.IsReadable := by
  obtain ⟨t, ts, hts, ht, hkinds⟩ := d.exists_tokens_of_line specifier x
  rw [hts] at h
  obtain ⟨i, hi⟩ := Outline.exists_item_of_ofTokens h
  rw [Outline.item_of_import ht (isImportDeclaration_of_restKinds hkinds)] at hi
  obtain ⟨y, hy, -⟩ := Except.bind_eq_ok_iff.1 hi
  exact isReadable_of_importRest halone hfrom (c := .past t ts) hkinds hy

/-! ## Reading the lines back -/

theorem attributeKinds_of_line {text specifier : String} {y : Lexing} {span : Span}
    (hy : Lexing.ofSource text.toList = .ok y) (hline : y.lexemes = d.lineLexemes specifier x) :
    (d.withSource specifier (x.map (AttributeLexemes.spanAfter (d.head specifier))) span).attributeKinds
      text = x.map (·.kinds) := by
  rw [attributeKinds, Lexing.tokenize_eq hy]
  cases x with
  | none => rfl
  | some a => exact congrArg some (AttributeLexemes.kinds_eq hy hline)

theorem map_name_locals (d : ImportDecl) : d.locals.map (·.name) = d.bindings := by
  simp [locals, bindings, Function.comp_def]

theorem not_mem_of_bindings_keep {used : NameSet} (h : (d.keep used).bindings = []) :
    ∀ b ∈ d.bindings, ¬used.contains b := by
  rw [bindings_keep, List.filter_eq_nil_iff] at h
  exact h

/-- A reduced import that binds nothing has no lines, and the empty text binds nothing. -/
theorem readsBack_of_bindings_eq_nil {used : NameSet} {sourceDir entryDir : Path}
    (h : (d.keep used).bindings = [])
    (hreduce : d.reduce used source sourceDir entryDir = []) :
    d.ReadsBack used source sourceDir entryDir := by
  refine ⟨∅, ?_, rfl, ?_, fun d' hd' => by cases hd'⟩
  · rw [reducedText, hreduce]
    have hempty : Lexing.ofSource "".toList = .ok ⟨[], [], .initial⟩ :=
      (Lexing.ofSource_sources_iff .nil (by simp)).2 ⟨rfl, rfl⟩
    exact Outline.ofSource_eq_ok_iff.2 ⟨_, hempty, Outline.ofTokens_nil⟩
  · rw [← locals_keep, List.map_eq_nil_iff.1 ((map_name_locals _).trans h)]
    rfl

variable {used : NameSet} {sourceDir entryDir : Path}

theorem onOneLine_rebase {spec : String} (hspec : Lexeme.OnOneLine spec.toList)
    (hdir : Lexeme.OnOneLine sourceDir.text.toList) (entryDir : Path) :
    Lexeme.OnOneLine (Specifier.rebase spec sourceDir entryDir).toList := by
  have hnone {a : Char} (ha : ¬Specifier.IsStructural a) (hs : a ∉ spec.toList)
      (hd : a ∉ sourceDir.text.toList) :
      a ∉ (Specifier.rebase spec sourceDir entryDir).toList := by
    intro h
    rcases Specifier.mem_rebase h with h | h | h
    · exact ha h
    · exact hs h
    · exact hd h
  exact ⟨hnone (by simp [Specifier.IsStructural]) hspec.1 hdir.1,
    hnone (by simp [Specifier.IsStructural]) hspec.2 hdir.2⟩

theorem exists_used_of_bindings_keep (h : (d.keep used).bindings ≠ []) :
    ∃ b ∈ d.bindings, used.contains b := by
  obtain ⟨b, hb⟩ := List.exists_mem_of_ne_nil _ h
  rw [bindings_keep] at hb
  exact ⟨b, (List.mem_filter.1 hb).1, (List.mem_filter.1 hb).2⟩

/-- A printed line is read back if its names are readable and its attributes stand, and else not. -/
theorem readsBack_of_line {line : String} (hx : d.HasAttributes source x)
    (hprint : (d.keep used).IsPrintable)
    (halone : (d.keep used).namespaceBinding = none ∨ (d.keep used).named = [])
    (hfrom : (d.keep used).typeOnly → (d.keep used).defaultBinding ≠ some "from")
    (hs : Lexeme.OnOneLine (Specifier.rebase d.specifier sourceDir entryDir).toList)
    (hreduce : d.reduce used source sourceDir entryDir = [line])
    (hline : line.toList = sources ((d.keep used).lineLexemes
      (Specifier.rebase d.specifier sourceDir entryDir) x)) :
    d.ReadsBack used source sourceDir entryDir ↔
      (∀ n ∈ (d.keep used).named, n.IsReadable) ∧ ∀ a ∈ x, a.Stands := by
  have htext : d.reducedText used source sourceDir entryDir = line := by
    rw [reducedText, hreduce, String.intercalate_singleton]
  obtain ⟨hreads, hlexemes⟩ := ofSource_line hprint hs hx.reads
  rw [← hline] at hreads hlexemes
  unfold ReadsBack
  rw [htext]
  constructor
  · rintro ⟨o', ho', -⟩
    obtain ⟨y, hy, ho'⟩ := Outline.ofSource_eq_ok_iff.1 ho'
    rw [hlexemes y hy] at ho'
    exact ⟨isReadable_of_ofTokens_line halone hfrom ho', hreads.1 ⟨y, hy⟩⟩
  · rintro ⟨hreadable, hstands⟩
    obtain ⟨y, hy⟩ := hreads.2 hstands
    obtain ⟨span, houtline⟩ := ofTokens_line halone hfrom hreadable
      (Specifier.rebase d.specifier sourceDir entryDir) x
    rw [← hlexemes y hy] at houtline
    refine ⟨_, Outline.ofSource_eq_ok_iff.2 ⟨y, hy, houtline⟩, rfl, ?_, ?_⟩
    · rw [List.flatMap_singleton, locals_withSource, locals_keep]
    · intro d' hd'
      obtain rfl := List.mem_singleton.1 hd'
      refine ⟨rfl, ?_⟩
      rw [attributeKinds_of_line hy (hlexemes y hy), hx.kinds]

end ImportDecl

open ImportDecl

/-- When its texts are on one line each, the lines of a reduced import bind the names in use as it
does itself, exactly if no name in use is misread between braces and the attributes, where there is a
line to write them on, are tokens by themselves. Where no name is in use, there is no line. -/
theorem reduce_readsBack_iff {source : String} {o : Outline} {d : ImportDecl}
    (ho : Outline.ofSource source = .ok o) (hd : d ∈ o.imports)
    (hspecifier : Lexeme.OnOneLine d.specifier.toList)
    (hnamed : ∀ n ∈ d.named, Lexeme.OnOneLine n.imported.toList) {sourceDir : Path}
    (hdir : Lexeme.OnOneLine sourceDir.text.toList) (entryDir : Path) (used : NameSet) :
    (d.ReadsBack used source sourceDir entryDir ↔
      (∀ n ∈ d.named, used.contains n.binding → n.IsReadable) ∧
        ((∃ b ∈ d.bindings, used.contains b) →
          ∀ span, d.attributes = some span → (tokenize (span.slice source)).isOk)) ∧
      ((∀ b ∈ d.bindings, ¬used.contains b) → d.reduce used source sourceDir entryDir = []) := by
  obtain ⟨y, hy, hts⟩ := Outline.ofSource_eq_ok_iff.1 ho
  obtain ⟨t, us, -, hread⟩ := Outline.exists_of_mem_imports hts hd
  obtain ⟨x, hx⟩ := exists_hasAttributes ho hd
  rcases reduce_eq hread.alone used source sourceDir entryDir with
    ⟨hnone, hreduce⟩ | ⟨hsome, line, hreduce, hline⟩
  · have hunused := not_mem_of_bindings_keep hnone
    refine ⟨iff_of_true (readsBack_of_bindings_eq_nil hnone hreduce) ⟨?_, ?_⟩, fun _ => hreduce⟩
    · intro n hn hused
      have hmem : n.binding ∈ d.bindings := List.mem_append_right _ (List.mem_map_of_mem hn)
      exact absurd hused (hunused _ hmem)
    · rintro ⟨b, hb, hused⟩
      exact absurd hused (hunused b hb)
  · obtain ⟨b, hb, hused⟩ := exists_used_of_bindings_keep hsome
    refine ⟨?_, fun h => absurd hused (h b hb)⟩
    have hfrom : (d.keep used).typeOnly → (d.keep used).defaultBinding ≠ some "from" := by
      intro ht hdefault
      exact hread.notFrom ht (Option.filter_eq_some_iff.1 hdefault).1
    have hsources : line.toList = sources ((d.keep used).lineLexemes
        (Specifier.rebase d.specifier sourceDir entryDir) x) := by
      rw [hline, hx.text, lineLexemes, Lexeme.sources_append, Lexeme.sources_append]
      rfl
    rw [readsBack_of_line hx ((isPrintable_of_mem ho hd hnamed).keep used)
      (keep_alone hread.alone used) hfrom (onOneLine_rebase hspecifier hdir entryDir) hreduce
      hsources, ← hx.stands]
    have hreadable : (∀ n ∈ (d.keep used).named, n.IsReadable) ↔
        ∀ n ∈ d.named, used.contains n.binding → n.IsReadable := by
      simp [keep, List.mem_filter]
    rw [hreadable]
    exact and_congr_right fun _ => ⟨fun h _ => h, fun h => h ⟨b, hb, hused⟩⟩

/-- An import with a default name, a name in quotes and attributes, less the name `b`. -/
theorem mixedImport_readsBack :
    let source := "import a, \x7b type b, \"x-y\" as c \x7d from './m' with \x7b type: 'json' \x7d;"
    let d : ImportDecl :=
      { specifier := "./m", defaultBinding := some "a", namespaceBinding := none
        named := [⟨"b", "b", true⟩, ⟨"x-y", "c", false⟩], typeOnly := false
        attributes := some ⟨44, 65⟩, span := ⟨0, 66⟩ }
    Outline.ofSource source = .ok ⟨[d], []⟩ ∧
      d.ReadsBack (.ofList ["a", "c"]) source ⟨"src"⟩ ⟨"dist/.ej/entries/jobs"⟩ := by
  intro source d
  have ho : Outline.ofSource source = .ok ⟨[d], []⟩ := by decide +kernel
  have htokens : (tokenize (Span.slice ⟨44, 65⟩ source)).isOk := by decide +kernel
  refine ⟨ho, (reduce_readsBack_iff ho List.mem_cons_self ⟨by decide, by decide⟩ ?_
    ⟨by decide, by decide⟩ _ _).1.2 ⟨?_, ?_⟩⟩
  · intro n hn
    rcases List.mem_cons.1 hn with rfl | hn
    · exact ⟨by decide, by decide⟩
    · obtain rfl := List.mem_singleton.1 hn
      exact ⟨by decide, by decide⟩
  · intro n hn hused
    rcases List.mem_cons.1 hn with rfl | hn
    · exact absurd hused (by decide)
    · obtain rfl := List.mem_singleton.1 hn
      exact ⟨fun h => absurd h (by decide), fun h => absurd h.1 (by decide)⟩
  · rintro - span ⟨⟩
    exact htokens

/-- The name `as`, marked `type`, is written without quotes, and the mark is then taken for the
name. -/
theorem reduced_import_misreads_mark :
    let source := "import \x7b type \"as\" as x \x7d from 'm';"
    let d : ImportDecl :=
      { specifier := "m", defaultBinding := none, namespaceBinding := none
        named := [⟨"as", "x", true⟩], typeOnly := false, attributes := none, span := ⟨0, 35⟩ }
    Outline.ofSource source = .ok ⟨[d], []⟩ ∧
      d.reduce (.ofList ["x"]) source ⟨"/a"⟩ ⟨"/b"⟩ = ["import \x7b type as as x \x7d from 'm';"] ∧
      ¬d.ReadsBack (.ofList ["x"]) source ⟨"/a"⟩ ⟨"/b"⟩ := by
  intro source d
  refine ⟨by decide +kernel, by decide +kernel, ?_⟩
  rintro ⟨o, ho, -⟩
  have hfails : (Outline.ofSource (d.reducedText (.ofList ["x"]) source ⟨"/a"⟩ ⟨"/b"⟩)).isOk =
      false := by decide +kernel
  rw [ho] at hfails
  cases hfails

end JobBundler
