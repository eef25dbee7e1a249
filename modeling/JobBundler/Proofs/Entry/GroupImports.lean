import JobBundler.Proofs.Entry.GroupModule
import JobBundler.Proofs.Outline.Relocation.Classes

/-!
# What a group's entry module imports

The entry module of a group is read as one namespace import for each source file and a registry that
leads from each job to its file's namespace. Files are imported by distinct specifiers exactly if they
differ in more than the extensions that a bundler finds by itself (`group_imports_distinct_iff`).
-/

namespace JobBundler

variable {c : Cursor} {t : Token} {ts : List Token} {ks : List TokenKind}

/-! ## Import lines -/

namespace SpaceImport

/-- The declaration imports the module under the name, and nothing else. -/
structure IsReadAs (i : SpaceImport) (d : ImportDecl) : Prop where
  specifier : d.specifier = i.specifier
  clause : d.clause = ⟨none, some i.space, []⟩
  typeOnly : d.typeOnly = false
  attributes : d.attributes = none

theorem importAttributes_of_semicolon (h : c.Shows (.semicolon :: ks)) : importAttributes c = .ok (none, c) := by
  obtain ⟨span, newline, ts, ht, -⟩ := h.exists_eq
  unfold importAttributes
  rw [ht]
  split
  · rename_i heq
    cases heq
    rfl
  · rfl

/-- The line of an import is read as its declaration. -/
theorem exists_item (i : SpaceImport) (h : (t :: ts).map (·.kind) = i.kinds ++ ks) :
    ∃ d c, item t ts = .ok (some (.importDecl d), c) ∧ i.IsReadAs d ∧ c.Shows ks := by
  obtain ⟨ht, hkinds⟩ := List.cons.inj h
  have hts : ts.map (·.kind) = i.decl.restKinds ++ .str i.specifier :: .semicolon :: ks := hkinds
  obtain ⟨c, hc, -, hrest⟩ := ImportDecl.importRest_of_isReadable t.span.start (d := i.decl)
    (c := .past t ts) (.inr rfl) (fun h => by cases h) (fun n hn => by cases hn) hts
  obtain ⟨span, htail⟩ := ImportDecl.importTail_of_shows t.span.start hc
    (importAttributes_of_semicolon hc.advance) hc.advance rfl
  have hitem := Outline.item_of_import ht (ImportDecl.isImportDeclaration_of_restKinds hts)
  rw [hrest, htail] at hitem
  exact ⟨_, _, hitem, ⟨rfl, rfl, rfl, rfl⟩, hc.advance.advance⟩

end SpaceImport

namespace Outline

/-- Import lines before other statements add their declarations. -/
theorem exists_ofTokens_of_imports {is : List SpaceImport} {o : Outline}
    (hrest : ∀ us, us.map (·.kind) = ks → ofTokens us = .ok o)
    (h : ts.map (·.kind) = (is.map (·.kinds)).flatten ++ ks) :
    ∃ ds, ofTokens ts = .ok ⟨ds ++ o.imports, o.classes⟩ ∧ List.Forall₂ SpaceImport.IsReadAs is ds := by
  induction is generalizing ts with
  | nil => exact ⟨[], hrest ts h, .nil⟩
  | cons i is ih =>
    rw [List.map_cons, List.flatten_cons, List.append_assoc] at h
    obtain ⟨t, ts, rfl, -, -⟩ := List.map_eq_cons_iff.1 h
    obtain ⟨d, c, hitem, hd, hc⟩ := i.exists_item h
    obtain ⟨ds, hds, hall⟩ := ih hc
    refine ⟨d :: ds, ?_, .cons hd hall⟩
    rw [ofTokens_of_item hitem, hds]
    rfl

end Outline

/-! ## The registry -/

/-- A token of this kind neither opens nor closes anything. -/
def TokenKind.isSilent : TokenKind → Bool
  | .opening _ | .closing _ | .template _ => false
  | _ => true

theorem skipGroup_of_isSilent {gs : List Token} {b : Bracket} (h : ∀ g ∈ gs, g.kind.isSilent)
    (ht : t.kind = .closing b) (us : List Token) : skipGroup 0 (gs ++ t :: us) = .ok (.past t us) := by
  induction gs with
  | nil => simp [skipGroup, ht]
  | cons g gs ih =>
    have hg := h g List.mem_cons_self
    have hstep (ts : List Token) : skipGroup 0 (g :: ts) = skipGroup 0 ts := by
      conv_lhs => unfold skipGroup
      cases hkind : g.kind <;> rw [hkind] at hg <;> first | rfl | cases hg
    rw [List.cons_append, hstep]
    exact ih fun g hg => h g (List.mem_cons_of_mem _ hg)

theorem not_startsDeclaration (h : t.kind ∉ TokenKind.declarations) (newline : Bool) :
    ¬(newline && startsDeclaration (t :: ts)) := by
  rw [Bool.and_eq_true]
  rintro ⟨-, hstarts⟩
  exact h (kind_mem_declarations hstarts)

/-- A statement goes on over tokens that neither end it nor start a declaration. -/
theorem skipStatementRest_of_isSilent (hc : c.tokens = t :: ts) (ht : t.kind.isSilent)
    (hsemi : t.kind ≠ .semicolon) (hd : t.kind ∉ TokenKind.declarations) :
    skipStatementRest c = skipStatementRest (.past t ts) := by
  rw [skipStatementRest_of_cons hc, if_neg (not_startsDeclaration hd _)]
  cases hkind : t.kind <;> rw [hkind] at ht hsemi <;> first | exact absurd rfl hsemi | cases ht

/-- A statement goes on after a group. -/
theorem skipStatementRest_of_opening {b : Bracket} (hc : c.tokens = t :: ts) (ht : t.kind = .opening b) :
    skipStatementRest c = skipGroup 0 ts >>= skipStatementRest := by
  have hd : t.kind ∉ TokenKind.declarations := by simp [ht, TokenKind.declarations]
  rw [skipStatementRest_of_cons hc, if_neg (not_startsDeclaration hd _), ht]

/-- A semicolon ends a statement. -/
theorem skipStatementRest_of_semicolon (hc : c.tokens = t :: ts) (ht : t.kind = .semicolon) :
    skipStatementRest c = .ok (.past t ts) := by
  have hd : t.kind ∉ TokenKind.declarations := by simp [ht, TokenKind.declarations]
  rw [skipStatementRest_of_cons hc, if_neg (not_startsDeclaration hd _), ht]

/-- The kinds of the tokens of a registry. -/
def registryKinds (ls : List RegistryLine) : List TokenKind :=
  .ident "export" :: .ident "const" :: .ident "jobs" :: .assign :: .opening .brace ::
    ((ls.map (·.kinds)).flatten ++ [.closing .brace, .semicolon])

theorem isSilent_of_mem_registry {ls : List RegistryLine} {k : TokenKind}
    (hk : k ∈ (ls.map (·.kinds)).flatten) : k.isSilent := by
  rw [← List.flatMap_def] at hk
  obtain ⟨l, -, hk⟩ := List.mem_flatMap.1 hk
  simp only [RegistryLine.kinds, List.mem_cons, List.not_mem_nil, or_false] at hk
  rcases hk with rfl | rfl | rfl | rfl | rfl | rfl <;> rfl

/-- The registry is skipped. -/
theorem skipStatement_of_registry {ls : List RegistryLine}
    (h : (t :: ts).map (·.kind) = (registryKinds ls).tail) :
    ∃ c, skipStatement t ts = .ok c ∧ c.tokens = [] := by
  obtain ⟨hconst, h⟩ := List.cons.inj h
  have ht : t.kind = .ident "const" := hconst
  obtain ⟨jobs, us, rfl, hjobs, h⟩ := List.map_eq_cons_iff.1 h
  obtain ⟨sign, us, rfl, hsign, h⟩ := List.map_eq_cons_iff.1 h
  obtain ⟨brace, us, rfl, hbrace, h⟩ := List.map_eq_cons_iff.1 h
  obtain ⟨gs, us, rfl, hgs, h⟩ := List.map_eq_append_iff.1 h
  obtain ⟨last, us, rfl, hlast, h⟩ := List.map_eq_cons_iff.1 h
  obtain ⟨semicolon, us, rfl, hsemicolon, h⟩ := List.map_eq_cons_iff.1 h
  obtain rfl := List.map_eq_nil_iff.1 h
  have hsilent : ∀ g ∈ gs, g.kind.isSilent := fun g hg =>
    isSilent_of_mem_registry (hgs ▸ List.mem_map_of_mem hg)
  refine ⟨.past semicolon [], ?_, rfl⟩
  calc
    skipStatement t (jobs :: sign :: brace :: (gs ++ last :: [semicolon]))
    _ = skipStatementRest (.past t (jobs :: sign :: brace :: (gs ++ last :: [semicolon]))) := by
      rw [skipStatement, ht]
    _ = skipStatementRest (.past sign (brace :: (gs ++ last :: [semicolon]))) := by
      rw [skipStatementRest_of_isSilent rfl (by rw [hjobs]; rfl) (by simp [hjobs]) (by rw [hjobs]; decide),
        skipStatementRest_of_isSilent rfl (by rw [hsign]; rfl) (by simp [hsign]) (by rw [hsign]; decide)]
    _ = skipStatementRest (.past last [semicolon]) := by
      rw [skipStatementRest_of_opening rfl hbrace, skipGroup_of_isSilent hsilent hlast]
      rfl
    _ = .ok (.past semicolon []) := skipStatementRest_of_semicolon rfl hsemicolon

/-- A registry adds nothing to an outline. -/
theorem Outline.ofTokens_of_registry {ls : List RegistryLine} (h : ts.map (·.kind) = registryKinds ls) :
    ofTokens ts = .ok ∅ := by
  obtain ⟨e, ts, rfl, he, h⟩ := List.map_eq_cons_iff.1 h
  obtain ⟨t, ts, rfl, ht, -⟩ := List.map_eq_cons_iff.1 h
  obtain ⟨c, hskip, hc⟩ := skipStatement_of_registry h
  have hclass : afterClassKeyword? (t :: ts) = none := by
    cases ts <;> simp [afterClassKeyword?, Token.isWord, ht]
  have hdecorators : decorators (.past e (t :: ts)) = .ok ([], .past e (t :: ts)) := by
    rw [decorators_of_cons rfl, if_neg (by simp [ht])]
  have hdefault : (Cursor.past e (t :: ts)).atWord "default" = false := by
    simp [Cursor.atWord, Cursor.atKind, Cursor.past, ht]
  have hitem : item e (t :: ts) = .ok (none, c) := by
    unfold item
    rw [if_neg (by simp [he]), if_neg (by simp [he]), if_neg (by simp [Token.isWord, he]),
      if_pos (by simp [Token.isWord, he]), exportRest]
    simp only [hdefault, Bool.false_eq_true, if_false, hdecorators, bind, Except.bind]
    rw [exported]
    simp only [Cursor.past, hclass, hskip]
    rfl
  rw [ofTokens_of_item hitem, hc, ofTokens_nil]
  rfl

/-! ## Reading an entry module back -/

namespace GroupModule

variable {m : GroupModule} {text : String}

/-- The text has the tokens of the module on the module's lines, and its outline is the module's imports. -/
structure IsReadFrom (m : GroupModule) (text : String) : Prop where
  tokens : ∃ ts, tokenize text = .ok ts ∧ ts.map Token.shape = m.lines.flatMap tokenLine
  outline : ∃ ds, Outline.ofSource text = .ok ⟨ds, []⟩ ∧ List.Forall₂ SpaceImport.IsReadAs m.imports ds

theorem map_snd_tokenLine (ks : List TokenKind) : (tokenLine ks).map (·.2) = ks := by
  cases ks with
  | nil => rfl
  | cons k ks => simp [tokenLine, Function.comp_def]

theorem map_kind_of_shape {lines : List (List TokenKind)} (h : ts.map Token.shape = lines.flatMap tokenLine) :
    ts.map (·.kind) = lines.flatten := by
  have hkinds := congrArg (List.map (·.2)) h
  rw [List.map_map, List.map_flatMap] at hkinds
  simp only [map_snd_tokenLine, List.flatMap_id'] at hkinds
  exact hkinds

theorem flatten_lines (m : GroupModule) :
    m.lines.flatten = (m.imports.map (·.kinds)).flatten ++ registryKinds m.registry := by
  simp [lines, registryKinds]

/-- A module whose names and specifiers can be written is read from its text. -/
theorem IsReadable.isReadFrom (h : m.IsReadable) {name : GroupName} (htext : text.toList = m.source name) :
    m.IsReadFrom text := by
  obtain ⟨y, hy, hshape⟩ := h.exists_ofSource name
  rw [← htext] at hy
  have hts := Lexing.tokenize_eq hy
  have htokens : (Token.place 0 y.lexemes).map Token.shape = m.lines.flatMap tokenLine := by
    rw [Token.map_shape_place, hshape]
  have hkinds := map_kind_of_shape htokens
  rw [flatten_lines] at hkinds
  obtain ⟨ds, hds, hall⟩ := Outline.exists_ofTokens_of_imports (fun us => Outline.ofTokens_of_registry) hkinds
  refine ⟨⟨_, hts, htokens⟩, ds, Outline.ofSource_eq_ok_iff.2 ⟨y, hy, ?_⟩, hall⟩
  rw [hds]
  simp [EmptyCollection.emptyCollection, Outline.empty]

end GroupModule

/-! ## The imports of a group -/

/-- The import of a file: it leads from the directory of the entry to the file's module, under the alias of
the file's number. -/
structure SpaceImport.IsOf (entryDir : Path) (file : Path × Nat) (i : SpaceImport) : Prop where
  space : i.space = fileAlias file.2
  leads : (entryDir.join ⟨i.specifier⟩).normalize = (modulePath file.1).normalize

/-- The line of a job: it leads from the job's id to the namespace of the job's own file, and there to the
member that holds the class. -/
structure RegistryLine.IsOf (files : List Path) (j : Job) (l : RegistryLine) : Prop where
  id : l.id = j.id.text
  space : ∃ n file, files[n]? = some file ∧ file.same j.sourceFile ∧ l.space = fileAlias n
  member : l.member = if j.exported = .byName then j.className.getD "default" else "default"

/-- The class has a name of the language, if it has one, and the path of the source is absolute and on one
line. -/
structure Job.IsWritable (j : Job) : Prop where
  className : ∀ name, j.className = some name → Lexeme.IsName name
  onOneLine : Lexeme.OnOneLine j.sourceFile.text.toList
  isAbsolute : j.sourceFile.isAbsolute

namespace Job

theorem exportMember_eq (j : Job) :
    j.exportMember = if j.exported = .byName then j.className.getD "default" else "default" := by
  unfold exportMember
  cases j.className <;> cases j.exported <;> rfl

theorem IsWritable.isName_exportMember {j : Job} (h : j.IsWritable) : Lexeme.IsName j.exportMember := by
  have hdefault : Lexeme.IsName "default" := NamedImport.isName_of_isIdentifier (by decide)
  unfold exportMember
  split
  · rename_i name hname _
    exact h.className name hname
  · exact hdefault

end Job

section
variable {js : List Job} {entryDir : Path}

theorem isReadable_groupModule (hjobs : ∀ j ∈ js, j.IsWritable) (entryDir : Path) :
    (groupModule js entryDir).IsReadable where
  imports i hi := by
    obtain ⟨⟨file, n⟩, hfile, rfl⟩ := List.mem_map.1 hi
    obtain ⟨j, hj, rfl⟩ := exists_of_mem_sourceFiles (List.fst_mem_of_mem_zipIdx hfile)
    constructor
    · rw [SpaceImport.ofFile_space]
      exact isName_fileAlias n
    · rw [SpaceImport.ofFile_specifier]
      exact onOneLine_relative (hjobs j hj).onOneLine entryDir
  registry l hl := by
    obtain ⟨j, hj, rfl⟩ := List.mem_map.1 hl
    constructor
    · rw [RegistryLine.ofJob_id]
      exact j.id.valid
    · rw [RegistryLine.ofJob_space]
      exact isName_fileAlias _
    · rw [RegistryLine.ofJob_member]
      exact (hjobs j hj).isName_exportMember

theorem isAbsolute_of_mem_sourceFiles (hjobs : ∀ j ∈ js, j.IsWritable) {file : Path}
    (h : file ∈ sourceFiles js) : (modulePath file).isAbsolute := by
  obtain ⟨j, hj, rfl⟩ := exists_of_mem_sourceFiles h
  exact isAbsolute_modulePath (hjobs j hj).isAbsolute

theorem isOf_imports_groupModule (hdir : entryDir.isAbsolute) (hjobs : ∀ j ∈ js, j.IsWritable) :
    List.Forall₂ (SpaceImport.IsOf entryDir) (sourceFiles js).zipIdx (groupModule js entryDir).imports := by
  rw [groupModule, List.forall₂_map_right_iff, List.forall₂_same]
  rintro ⟨file, n⟩ hfile
  have habsolute := isAbsolute_of_mem_sourceFiles hjobs (List.fst_mem_of_mem_zipIdx hfile)
  constructor
  · rw [SpaceImport.ofFile_space]
  · rw [SpaceImport.ofFile_specifier]
    exact Specifier.normalize_join_relative hdir habsolute

theorem isOf_registry_groupModule (js : List Job) (entryDir : Path) :
    List.Forall₂ (RegistryLine.IsOf (sourceFiles js)) js (groupModule js entryDir).registry := by
  rw [groupModule, List.forall₂_map_right_iff, List.forall₂_same]
  intro j hj
  obtain ⟨n, file, hn, hfile, hsame⟩ := exists_findIdx?_sourceFiles hj
  constructor
  · rw [RegistryLine.ofJob_id]
  · refine ⟨n, file, hfile, hsame, ?_⟩
    rw [RegistryLine.ofJob_space, hn, Option.getD_some]
  · rw [RegistryLine.ofJob_member]
    exact j.exportMember_eq

theorem nodup_spaces_groupModule (js : List Job) (entryDir : Path) :
    ((groupModule js entryDir).imports.map (·.space)).Nodup := by
  have hspaces : (groupModule js entryDir).imports.map (·.space) =
      ((sourceFiles js).zipIdx.map Prod.snd).map fileAlias := by
    simp only [groupModule, List.map_map, Function.comp_def, SpaceImport.ofFile_space]
  rw [hspaces, List.zipIdx_map_snd]
  exact List.Nodup.map fileAlias_injective List.nodup_range'

theorem nodup_specifiers_groupModule_iff (hdir : entryDir.isAbsolute) (hjobs : ∀ j ∈ js, j.IsWritable) :
    ((groupModule js entryDir).imports.map (·.specifier)).Nodup ↔
      ((sourceFiles js).map fun file => (modulePath file).normalize).Nodup := by
  have hspecifiers : (groupModule js entryDir).imports.map (·.specifier) =
      ((sourceFiles js).zipIdx.map Prod.fst).map fun file => Specifier.relative entryDir (modulePath file) := by
    simp only [groupModule, List.map_map, Function.comp_def, SpaceImport.ofFile_specifier]
  rw [hspecifiers, List.zipIdx_map_fst, List.Nodup, List.Nodup, List.pairwise_map, List.pairwise_map]
  refine List.Pairwise.iff_of_mem fun hp hq => not_congr ?_
  exact Specifier.relative_inj hdir (isAbsolute_of_mem_sourceFiles hjobs hp)
    (isAbsolute_of_mem_sourceFiles hjobs hq)

end

/-- The entry module of a group is read as one namespace import for each distinct source file, in the order
in which the files are first met, each under a name of its own, and as a registry with a line for each job.
The specifiers of two files are the same exactly if the files' modules are, which they are for files that
differ in an extension that is left out. -/
theorem group_imports_distinct_iff (name : GroupName) {js : List Job} {entryDir : Path}
    (hdir : entryDir.isAbsolute) (hjobs : ∀ j ∈ js, j.IsWritable) :
    let files := (js.map (·.sourceFile)).eraseDupsBy Path.same
    ∃ m : GroupModule, m.IsReadFrom (name.entry js entryDir).text ∧
      List.Forall₂ (SpaceImport.IsOf entryDir) files.zipIdx m.imports ∧
      List.Forall₂ (RegistryLine.IsOf files) js m.registry ∧
      (m.imports.map (·.space)).Nodup ∧
      ((m.imports.map (·.specifier)).Nodup ↔ (files.map fun file => (modulePath file).normalize).Nodup) := by
  intro files
  have hfiles : files = sourceFiles js := (sourceFiles_eq js).symm
  rw [hfiles]
  exact ⟨groupModule js entryDir,
    (isReadable_groupModule hjobs entryDir).isReadFrom (entryText_toList name js entryDir),
    isOf_imports_groupModule hdir hjobs, isOf_registry_groupModule js entryDir,
    nodup_spaces_groupModule js entryDir, nodup_specifiers_groupModule_iff hdir hjobs⟩

/-- Three jobs from two files of distinct names. -/
theorem distinctFiles_imported :
    let name : GroupName := ⟨"g", by decide⟩
    let a : Job := ⟨⟨"A", by decide⟩, ⟨"/p/src/b.ts"⟩, some "A", .byName, some name⟩
    let b : Job := ⟨⟨"B", by decide⟩, ⟨"/p/src/a.js"⟩, some "B", .byDefault, some name⟩
    let c : Job := ⟨⟨"C", by decide⟩, ⟨"/p/./src/b.ts"⟩, some "C", .byName, some name⟩
    let entryDir : Path := ⟨"/p/dist/.ej/entries/groups"⟩
    ∃ m : GroupModule, m.IsReadFrom (name.entry [a, b, c] entryDir).text ∧
      List.Forall₂ (SpaceImport.IsOf entryDir) [(a.sourceFile, 0), (b.sourceFile, 1)] m.imports ∧
      List.Forall₂ (RegistryLine.IsOf [a.sourceFile, b.sourceFile]) [a, b, c] m.registry ∧
      (m.imports.map (·.space)).Nodup ∧ (m.imports.map (·.specifier)).Nodup := by
  intro name a b c entryDir
  have hdir : entryDir.isAbsolute := by decide
  have hjobs : ∀ j ∈ [a, b, c], j.IsWritable := by
    intro j hj
    simp only [List.mem_cons, List.not_mem_nil, or_false] at hj
    rcases hj with rfl | rfl | rfl <;>
    · refine ⟨?_, ⟨by decide, by decide⟩, by decide⟩
      rintro _ ⟨⟩
      exact NamedImport.isName_of_isIdentifier (by decide)
  have hfiles : ([a, b, c].map (·.sourceFile)).eraseDupsBy Path.same = [a.sourceFile, b.sourceFile] := by
    decide +kernel
  obtain ⟨m, hread, himports, hregistry, hspaces, hspecifiers⟩ :=
    group_imports_distinct_iff name hdir hjobs
  rw [hfiles] at himports hregistry hspecifiers
  exact ⟨m, hread, himports, hregistry, hspaces, hspecifiers.2 (by decide +kernel)⟩

/-- Two files that differ in their extensions are imported by the same specifier. -/
theorem twinFiles_share_specifier :
    let name : GroupName := ⟨"g", by decide⟩
    let a : Job := ⟨⟨"A", by decide⟩, ⟨"/p/src/a.ts"⟩, some "A", .byName, some name⟩
    let b : Job := ⟨⟨"B", by decide⟩, ⟨"/p/src/a.tsx"⟩, some "B", .byName, some name⟩
    let text := (name.entry [a, b] ⟨"/p/dist/.ej/entries/groups"⟩).text
    a.sourceFile.same b.sourceFile = false ∧
      (Outline.ofSource text).map (fun o => o.imports.map (·.specifier)) =
        .ok ["../../../../src/a", "../../../../src/a"] := by
  decide +kernel

end JobBundler
