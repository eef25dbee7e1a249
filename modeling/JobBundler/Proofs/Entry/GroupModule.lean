import JobBundler.Proofs.Entry.ReducedImports
import JobBundler.Proofs.Entry.SourceFiles
import JobBundler.Proofs.Reference.Expression

/-!
# The text of a group's entry module

An entry module of a group is a comment, a line for each namespace import, and a registry with a line
for each job (`GroupModule.source`). It is read as the tokens of these lines, each of which starts with a
token on a line of its own (`GroupModule.exists_ofSource`).
-/

namespace JobBundler

open Lexeme (sources)

/-! ## Tokens on lines -/

/-- Whether a token starts a line, and its kind. -/
def Token.shape (t : Token) : Bool × TokenKind :=
  (t.newlineBefore, t.kind)

def Lexeme.shape (l : Lexeme) : Bool × TokenKind :=
  (l.gap.any Trivia.isLineTerminator, l.kind)

theorem Token.map_shape_place (offset : Nat) (ls : List Lexeme) :
    (place offset ls).map shape = ls.map Lexeme.shape := by
  induction ls generalizing offset with
  | nil => rfl
  | cons l ls ih => simp only [place, List.map_cons, ih]; rfl

/-- Tokens of these kinds on a line of their own. -/
def tokenLine : List TokenKind → List (Bool × TokenKind)
  | [] => []
  | k :: ks => (true, k) :: ks.map (false, ·)

/-! ## Imports -/

/-- An import of a whole module under one name. -/
structure SpaceImport where
  space : String
  specifier : String

namespace SpaceImport

def kinds (i : SpaceImport) : List TokenKind :=
  [.ident "import", .star, .ident "as", .ident i.space, .ident "from", .str i.specifier, .semicolon]

/-- The declaration that the import is, but for its place. -/
def decl (i : SpaceImport) : ImportDecl where
  specifier := i.specifier
  defaultBinding := none
  namespaceBinding := some i.space
  named := []
  typeOnly := false
  attributes := none
  span := ⟨0, 0⟩

def lexemes (i : SpaceImport) : List Lexeme :=
  i.decl.lineLexemes i.specifier none

theorem sources_lexemes (i : SpaceImport) :
    sources i.lexemes = s!"import * as {i.space} from {singleQuoted i.specifier};".toList := by
  simp [lexemes, ImportDecl.lineLexemes, ImportDecl.head, ImportDecl.clauseLexemes,
    ImportDecl.innerLexemes, AttributeLexemes.tail, decl, Lexeme.source, Lexeme.star, Lexeme.word,
    Lexeme.quoted, Lexeme.semicolon, toString]

structure IsReadable (i : SpaceImport) : Prop where
  space : Lexeme.IsName i.space
  specifier : Lexeme.OnOneLine i.specifier.toList

theorem IsReadable.ofSource {i : SpaceImport} (h : i.IsReadable) :
    ∃ ctx, Lexing.ofSource (sources i.lexemes) = .ok ⟨i.lexemes, [], ctx⟩ := by
  have hprint : i.decl.IsPrintable := ⟨by simpa [ImportDecl.bindings, decl] using h.space, by simp [decl]⟩
  obtain ⟨b, hiff⟩ := ImportDecl.ofSource_line_iff none hprint h.specifier
  exact ⟨_, (hiff _ .nil _).2 ⟨rfl, rfl⟩⟩

end SpaceImport

/-! ## Lines of the registry -/

/-- A line of a registry: the id of a job, and the member of a namespace that it stands for. -/
structure RegistryLine where
  id : String
  space : String
  member : String

namespace RegistryLine

def kinds (l : RegistryLine) : List TokenKind :=
  [.str l.id, .colon, .ident l.space, .dot, .ident l.member, .comma]

/-- The id between double quotes, on a line of its own. -/
def key (l : RegistryLine) : Lexeme :=
  ⟨['\n', ' ', ' '], '"' :: (l.id.toList ++ ['"']), .str l.id⟩

def lexemes (l : RegistryLine) : List Lexeme :=
  [l.key, ⟨[], [':'], .colon⟩, Lexeme.word l.space, ⟨[], ['.'], .dot⟩,
    ⟨[], l.member.toList, .ident l.member⟩, Lexeme.comma]

def text (l : RegistryLine) : List Char :=
  s!"  \"{l.id}\": {l.space}.{l.member},".toList

theorem sources_lexemes (l : RegistryLine) : sources l.lexemes = '\n' :: l.text := by
  simp [lexemes, key, text, Lexeme.source, Lexeme.word, Lexeme.comma, toString]

theorem map_shape_lexemes (l : RegistryLine) : l.lexemes.map Lexeme.shape = tokenLine l.kinds := by
  rfl

structure IsReadable (l : RegistryLine) : Prop where
  id : Name.isValid l.id
  space : Lexeme.IsName l.space
  member : Lexeme.IsName l.member

end RegistryLine

/-- A character of a name stands for itself in a string literal. -/
theorem Name.ne_of_isNameChar {c : Char} (h : isNameChar c) :
    c ≠ '\\' ∧ c ≠ '"' ∧ c ≠ '\n' ∧ c ≠ '\r' := by
  refine ⟨?_, ?_, ?_, ?_⟩ <;> rintro rfl <;> exact absurd h (by decide)

theorem Literal.stringBody_of_isNameChar {cs : List Char} (h : cs.all Name.isNameChar) (rest : List Char) :
    stringBody '"' (cs ++ '"' :: rest) = (cs, some rest) := by
  have hplain : ∀ c ∈ cs, c ≠ '"' ∧ c ≠ '\\' ∧ c ≠ '\n' ∧ c ≠ '\r' := fun c hc => by
    obtain ⟨hescape, hquote, hline⟩ := Name.ne_of_isNameChar (List.all_eq_true.1 h c hc)
    exact ⟨hquote, hescape, hline⟩
  rw [Lexeme.stringBody_append_plain hplain, Lexeme.stringBody_quote (by decide)]
  simp

theorem Token.unescape_of_isNameChar {cs : List Char} (h : cs.all Name.isNameChar) : unescape cs = cs := by
  induction cs with
  | nil => rw [unescape]
  | cons c cs ih =>
    rw [List.all_cons, Bool.and_eq_true] at h
    rw [unescape, ih h.2]
    rintro rfl
    exact absurd rfl (Name.ne_of_isNameChar h.1).1

namespace Lexeme

variable {d : Nat} {s : List Nat} {b : Bool} {rest : List Char}

theorem next_colon (rest : List Char) :
    next ⟨d, s, b⟩ (':' :: ' ' :: rest) = .ok (.lexeme ⟨[], [':'], .colon⟩ ⟨d, s, true⟩ (' ' :: rest)) :=
  next_of_read (g := []) (c := ':') (.inl rfl) (by decide) (by decide) rfl

theorem next_assign (rest : List Char) :
    next ⟨d, s, b⟩ (' ' :: '=' :: ' ' :: rest) =
      .ok (.lexeme ⟨[' '], ['='], .assign⟩ ⟨d, s, true⟩ (' ' :: rest)) := by
  have hread : read ⟨d, s, b⟩ false '=' (' ' :: rest) =
      .ok ⟨.assign, ['='], ⟨d, s, true⟩, ' ' :: rest⟩ := rfl
  exact next_of_read (g := [' ']) (.inr rfl) (by decide) (by decide) hread

theorem next_dot {name : String} (h : IsName name) (rest : List Char) :
    next ⟨d, s, b⟩ ('.' :: (name.toList ++ rest)) =
      .ok (.lexeme ⟨[], ['.'], .dot⟩ ⟨d, s, true⟩ (name.toList ++ rest)) := by
  have hsign : (MemberAccess.mk false name h).sign.toList = ['.'] := by simp [MemberAccess.sign]
  have haccess := next_accessSign ⟨false, name, h⟩ ⟨d, s, b⟩ rest
  rw [hsign] at haccess
  exact haccess

theorem next_comma (rest : List Char) :
    next ⟨d, s, b⟩ (',' :: rest) = .ok (.lexeme comma ⟨d, s, true⟩ rest) :=
  next_of_read (g := []) (c := ',') (.inl rfl) (by decide) (by decide) rfl

end Lexeme

namespace RegistryLine

variable {d : Nat} {s : List Nat} {rest : List Char}

/-- A valid id between double quotes is read as it stands. -/
theorem IsReadable.next_key {l : RegistryLine} (h : l.IsReadable) (b : Bool) (rest : List Char) :
    Lexeme.next ⟨d, s, b⟩ (l.key.source ++ rest) = .ok (.lexeme l.key ⟨d, s, false⟩ rest) := by
  have hid : l.id.toList.all Name.isNameChar := (Bool.and_eq_true_iff.1 h.id).2
  have hgap (cs : List Char) :
      Trivia.gap ('\n' :: ' ' :: ' ' :: '"' :: cs) = .ok (['\n', ' ', ' '], '"' :: cs) := by
    rw [Trivia.gap_cons_of_isSpace (by decide), Trivia.gap_cons_of_isSpace (by decide),
      Trivia.gap_cons_of_isSpace (by decide), Trivia.gap_of_not_isSpace (by decide) (by decide)]
    rfl
  have hread : Lexeme.read ⟨d, s, b⟩ false '"' (l.id.toList ++ '"' :: rest) =
      .ok ⟨.str l.id, '"' :: (l.id.toList ++ ['"']), ⟨d, s, false⟩, rest⟩ := by
    show Lexeme.readString ⟨d, s, b⟩ '"' (l.id.toList ++ '"' :: rest) = _
    rw [Lexeme.readString, Literal.stringBody_of_isNameChar hid]
    simp only [Token.unescape_of_isNameChar hid, String.ofList_toList]
    rfl
  have hsource : l.key.source ++ rest = '\n' :: ' ' :: ' ' :: '"' :: (l.id.toList ++ '"' :: rest) := by
    simp [key, Lexeme.source]
  rw [hsource]
  exact Lexeme.next_of_gap (hgap _) hread

theorem IsReadable.reads {l : RegistryLine} (h : l.IsReadable) (b : Bool) :
    Lexeme.Reads rest ⟨d, s, b⟩ l.lexemes ⟨d, s, true⟩ := by
  have hcomma (b : Bool) : Lexeme.Reads rest ⟨d, s, b⟩ [Lexeme.comma] ⟨d, s, true⟩ :=
    .cons (Lexeme.next_comma rest) .nil
  have hmember : Lexeme.Reads rest ⟨d, s, true⟩
      [⟨[], l.member.toList, .ident l.member⟩, Lexeme.comma] ⟨d, s, true⟩ :=
    .cons (Lexeme.next_name h.member (.inl rfl) rfl) (hcomma _)
  have hdot (b : Bool) : Lexeme.Reads rest ⟨d, s, b⟩ (l.lexemes.drop 3) ⟨d, s, true⟩ := by
    refine .cons ?_ hmember
    simpa [Lexeme.source] using Lexeme.next_dot h.member (Lexeme.comma.source ++ rest)
  have hspace : Lexeme.Reads rest ⟨d, s, true⟩ (l.lexemes.drop 2) ⟨d, s, true⟩ :=
    .cons (Lexeme.next_name h.space (.inr rfl) rfl) (hdot _)
  have hcolon : Lexeme.Reads rest ⟨d, s, false⟩ (l.lexemes.drop 1) ⟨d, s, true⟩ :=
    .cons (Lexeme.next_colon _) hspace
  exact .cons (h.next_key b _) hcolon

theorem reads_flatMap {ls : List RegistryLine} (h : ∀ l ∈ ls, l.IsReadable) :
    Lexeme.Reads rest ⟨d, s, true⟩ (ls.flatMap lexemes) ⟨d, s, true⟩ := by
  induction ls with
  | nil => exact .nil
  | cons l ls ih =>
    rw [List.flatMap_cons]
    exact (h l List.mem_cons_self).reads true |>.append (ih fun l hl => h l (List.mem_cons_of_mem _ hl))

end RegistryLine

/-! ## Registries -/

def registryHead : List Lexeme :=
  [⟨[], "export".toList, .ident "export"⟩, Lexeme.word "const", Lexeme.word "jobs", ⟨[' '], ['='], .assign⟩,
    Lexeme.openBrace]

def registryFoot : List Lexeme :=
  [⟨['\n'], ['}'], .closing .brace⟩, Lexeme.semicolon]

/-- The lexemes of an exported object with these lines. -/
def registryLexemes (ls : List RegistryLine) : List Lexeme :=
  registryHead ++ (ls.flatMap RegistryLine.lexemes ++ registryFoot)

theorem reads_registryHead (rest : List Char) : Lexeme.Reads rest .initial registryHead ⟨1, [], true⟩ := by
  have hexport : Lexeme.IsName "export" := NamedImport.isName_of_isIdentifier (by decide)
  have hconst : Lexeme.IsName "const" := NamedImport.isName_of_isIdentifier (by decide)
  have hjobs : Lexeme.IsName "jobs" := NamedImport.isName_of_isIdentifier (by decide)
  have hbrace (b : Bool) : Lexeme.Reads rest ⟨0, [], b⟩ [Lexeme.openBrace] ⟨1, [], true⟩ :=
    .cons (Lexeme.next_openBrace b 0 [] rest) .nil
  have hassign (b : Bool) : Lexeme.Reads rest ⟨0, [], b⟩ (registryHead.drop 3) ⟨1, [], true⟩ :=
    .cons (Lexeme.next_assign _) (hbrace true)
  exact .cons (Lexeme.next_name hexport (.inl rfl) rfl)
    (.cons (Lexeme.next_name hconst (.inr rfl) rfl) (.cons (Lexeme.next_name hjobs (.inr rfl) rfl) (hassign _)))

theorem reads_registryFoot (b : Bool) (rest : List Char) :
    Lexeme.Reads rest ⟨1, [], b⟩ registryFoot ⟨0, [], true⟩ := by
  have hgap : Trivia.gap ('\n' :: '}' :: ';' :: rest) = .ok (['\n'], '}' :: ';' :: rest) := by
    rw [Trivia.gap_cons_of_isSpace (by decide), Trivia.gap_of_not_isSpace (by decide) (by decide)]
    rfl
  exact .cons (Lexeme.next_of_gap hgap (Lexeme.read_closeBrace b false 0 (';' :: rest)))
    (.cons (Lexeme.next_semicolon _ rest) .nil)

theorem ofSource_registry {ls : List RegistryLine} (h : ∀ l ∈ ls, l.IsReadable) :
    ∃ ctx, Lexing.ofSource (sources (registryLexemes ls)) = .ok ⟨registryLexemes ls, [], ctx⟩ := by
  have hreads : Lexeme.Reads [] .initial (registryLexemes ls) ⟨0, [], true⟩ :=
    (reads_registryHead _).append ((RegistryLine.reads_flatMap h).append (reads_registryFoot true []))
  have hhead : (sources (registryLexemes ls)).head? ≠ some '#' := by
    simp [registryLexemes, registryHead, Lexeme.source]
  exact ⟨_, (Lexing.ofSource_sources_iff hreads hhead).2 ⟨rfl, rfl⟩⟩

/-! ## Lines one after the other -/

namespace Lexing

variable {as bs : List Char} {y z : Lexing} {l : Lexeme} {ls : List Lexeme}

/-- A text that starts with a word adds its tokens on new lines. -/
theorem exists_append_line (hy : ofSource as = .ok y) (hz : ofSource bs = .ok z)
    (hls : z.lexemes = l :: ls) (hk : l.kind.Leads) (hgap : l.gap = []) :
    ∃ x, ofSource (as ++ '\n' :: bs) = .ok x ∧
      x.lexemes.map Lexeme.shape = y.lexemes.map Lexeme.shape ++ (true, l.kind) :: ls.map Lexeme.shape := by
  obtain ⟨ctx, hx⟩ := ofSource_append_line hy hz hls hk hgap
  refine ⟨_, hx, ?_⟩
  have hnewline : Trivia.isLineTerminator '\n' = true := rfl
  simp [Lexeme.shape, hnewline]

theorem exists_append_imports {is : List SpaceImport} (hy : ofSource as = .ok y) (h : ∀ i ∈ is, i.IsReadable) :
    ∃ x, ofSource (as ++ is.flatMap fun i => '\n' :: sources i.lexemes) = .ok x ∧
      x.lexemes.map Lexeme.shape =
        y.lexemes.map Lexeme.shape ++ (is.map (·.kinds)).flatMap tokenLine := by
  induction is generalizing as y with
  | nil => exact ⟨y, by simpa using hy, by simp⟩
  | cons i is ih =>
    obtain ⟨ctx, hi⟩ := (h i List.mem_cons_self).ofSource
    obtain ⟨x, hx, hshape⟩ := exists_append_line hy hi rfl (.inr ⟨"import", rfl⟩) rfl
    obtain ⟨x', hx', hshape'⟩ := ih hx fun i hi => h i (List.mem_cons_of_mem _ hi)
    refine ⟨x', ?_, ?_⟩
    · rw [List.flatMap_cons, ← List.append_assoc]
      exact hx'
    · rw [hshape', hshape, List.map_cons, List.flatMap_cons, List.append_assoc]
      rfl

end Lexing

/-! ## Modules of groups -/

/-- The entry module of a group: the imports, and the lines of the registry. -/
structure GroupModule where
  imports : List SpaceImport
  registry : List RegistryLine

namespace GroupModule

/-- The kinds of the tokens on each line that has any. -/
def lines (m : GroupModule) : List (List TokenKind) :=
  m.imports.map (·.kinds) ++ [.ident "export", .ident "const", .ident "jobs", .assign, .opening .brace] ::
    (m.registry.map (·.kinds) ++ [[.closing .brace, .semicolon]])

/-- The comment at the front. -/
def comment (name : GroupName) : List Char :=
  s!"// generated by ej for group {name.text}".toList

def source (name : GroupName) (m : GroupModule) : List Char :=
  comment name ++ (m.imports.flatMap fun i => '\n' :: sources i.lexemes) ++ ['\n'] ++
    '\n' :: (sources (registryLexemes m.registry) ++ ['\n'])

structure IsReadable (m : GroupModule) : Prop where
  imports : ∀ i ∈ m.imports, i.IsReadable
  registry : ∀ l ∈ m.registry, l.IsReadable

theorem ofSource_comment (name : GroupName) :
    Lexing.ofSource (comment name) = .ok ⟨[], comment name, .initial⟩ := by
  let line := s!" generated by ej for group {name.text}".toList
  have hcomment : comment name = '/' :: '/' :: line := by simp [comment, line, toString]
  have hname : name.text.toList.all (!Trivia.endsLineComment ·) := by
    have hvalid : name.text.toList.all Name.isNameChar := (Bool.and_eq_true_iff.1 name.valid).2
    refine List.all_eq_true.2 fun c hc => ?_
    obtain ⟨-, -, hn, hr⟩ := Name.ne_of_isNameChar (List.all_eq_true.1 hvalid c hc)
    simp [Trivia.endsLineComment, hn, hr]
  have hline : line.all (!Trivia.endsLineComment ·) := by
    have hfront : " generated by ej for group ".toList.all (!Trivia.endsLineComment ·) := by decide
    simp only [line, toString, String.toList_append, List.all_append, hfront, hname]
    rfl
  have hgap : Trivia.gap (comment name) = .ok (comment name, []) := by
    obtain ⟨htake, hdrop⟩ := @takeWhile_append_of_all _ line [] hline rfl
    rw [List.append_nil] at htake hdrop
    rw [hcomment, Trivia.gap, htake, hdrop, Trivia.gap]
    simp [Trivia.extendGap]
  have hnext : Lexeme.next .initial (comment name) = .ok (.finished (comment name)) := by
    rw [Lexeme.next, hgap]
  have hbang : hashbang (comment name) = ([], comment name) :=
    Lexing.hashbang_of_head? (by simp [hcomment])
  have hlexemes := Lexeme.lexemesFrom_of_finished hnext
  refine Lexing.ofSource_eq_ok_iff.2 ⟨⟨[], comment name, .initial⟩, ?_, ?_, rfl⟩
  · rw [hbang, hlexemes]
  · rw [hbang]
    rfl

theorem map_shape_registryLexemes (ls : List RegistryLine) :
    (registryLexemes ls).map Lexeme.shape = (false, .ident "export") ::
      ([.ident "const", .ident "jobs", .assign, .opening .brace].map (false, ·) ++
        ((ls.map (·.kinds)).flatMap tokenLine ++ tokenLine [.closing .brace, .semicolon])) := by
  have hlines : (ls.flatMap RegistryLine.lexemes).map Lexeme.shape =
      (ls.map (·.kinds)).flatMap tokenLine := by
    rw [List.map_flatMap, List.flatMap_map]
    exact List.flatMap_congr fun l _ => l.map_shape_lexemes
  rw [registryLexemes, List.map_append, List.map_append, hlines]
  rfl

/-- The text of the module is read as the tokens of its lines. -/
theorem IsReadable.exists_ofSource {m : GroupModule} (h : m.IsReadable) (name : GroupName) :
    ∃ y, Lexing.ofSource (m.source name) = .ok y ∧
      y.lexemes.map Lexeme.shape = m.lines.flatMap tokenLine := by
  obtain ⟨x, hx, hshape⟩ := Lexing.exists_append_imports (ofSource_comment name) h.imports
  obtain ⟨ctx, hregistry⟩ := ofSource_registry h.registry
  obtain ⟨y, hy, hshape'⟩ := Lexing.exists_append_line (Lexing.ofSource_append_lineEnd hx)
    (Lexing.ofSource_append_lineEnd hregistry) rfl (.inr ⟨"export", rfl⟩) rfl
  refine ⟨y, hy, ?_⟩
  obtain ⟨-, htail⟩ := List.cons.inj (map_shape_registryLexemes m.registry)
  rw [hshape', hshape, htail, lines, List.flatMap_append, List.flatMap_cons, List.flatMap_append]
  simp [tokenLine]

end GroupModule

/-! ## The text of an entry -/

/-- Lines with an end each, after the end of a line, are the ends of lines before them. -/
theorem lineEnd_flatMap {α : Type} (f : α → List Char) (xs : List α) (rest : List Char) :
    '\n' :: (xs.flatMap (fun x => f x ++ ['\n']) ++ rest) = xs.flatMap (fun x => '\n' :: f x) ++ '\n' :: rest := by
  induction xs with
  | nil => rfl
  | cons x xs ih => simp [← ih]

/-- The text of a module line by line, each with its end. -/
theorem GroupModule.source_eq (name : GroupName) (m : GroupModule) :
    m.source name = comment name ++ ['\n'] ++ m.imports.flatMap (fun i => sources i.lexemes ++ ['\n']) ++
      "\nexport const jobs = \x7b\n".toList ++ m.registry.flatMap (fun l => l.text ++ ['\n']) ++
      "\x7d;\n".toList := by
  have hlines : sources (m.registry.flatMap RegistryLine.lexemes) =
      m.registry.flatMap fun l => '\n' :: l.text := by
    simp only [sources, List.flatMap_assoc]
    exact List.flatMap_congr fun l _ => l.sources_lexemes
  have hopen : "\nexport const jobs = \x7b\n".toList = '\n' :: (sources registryHead ++ ['\n']) := by
    simp [registryHead, Lexeme.source, Lexeme.word, Lexeme.openBrace]
  have hclose : sources registryFoot ++ ['\n'] = '\n' :: "\x7d;\n".toList := by
    simp [registryFoot, Lexeme.source, Lexeme.semicolon]
  symm
  calc
    _ = comment name ++ '\n' :: (m.imports.flatMap (fun i => sources i.lexemes ++ ['\n']) ++
        '\n' :: (sources registryHead ++
          '\n' :: (m.registry.flatMap (fun l => l.text ++ ['\n']) ++ "\x7d;\n".toList))) := by
      rw [hopen]
      simp only [List.append_assoc, List.cons_append, List.nil_append]
    _ = comment name ++ (m.imports.flatMap (fun i => '\n' :: sources i.lexemes) ++
        '\n' :: '\n' :: (sources registryHead ++
          (m.registry.flatMap (fun l => '\n' :: l.text) ++ '\n' :: "\x7d;\n".toList))) := by
      rw [lineEnd_flatMap, lineEnd_flatMap]
    _ = m.source name := by
      rw [source, registryLexemes, Lexeme.sources_append, Lexeme.sources_append, hlines, ← hclose]
      simp only [List.append_assoc, List.cons_append, List.nil_append]

/-- The import of a source file with its number. -/
def SpaceImport.ofFile (entryDir : Path) (file : Path × Nat) : SpaceImport :=
  ⟨fileAlias file.2, Specifier.relative entryDir (modulePath file.1)⟩

@[simp] theorem SpaceImport.ofFile_space (entryDir : Path) (file : Path × Nat) :
    (ofFile entryDir file).space = fileAlias file.2 := by
  rw [ofFile]

@[simp] theorem SpaceImport.ofFile_specifier (entryDir : Path) (file : Path × Nat) :
    (ofFile entryDir file).specifier = Specifier.relative entryDir (modulePath file.1) := by
  rw [ofFile]

/-- The line of a job whose file is among the files. -/
def RegistryLine.ofJob (files : List Path) (j : Job) : RegistryLine :=
  ⟨j.id.text, fileAlias ((files.findIdx? (·.same j.sourceFile)).getD 0), j.exportMember⟩

@[simp] theorem RegistryLine.ofJob_id (files : List Path) (j : Job) : (ofJob files j).id = j.id.text := by
  rw [ofJob]

@[simp] theorem RegistryLine.ofJob_space (files : List Path) (j : Job) :
    (ofJob files j).space = fileAlias ((files.findIdx? (·.same j.sourceFile)).getD 0) := by
  rw [ofJob]

@[simp] theorem RegistryLine.ofJob_member (files : List Path) (j : Job) :
    (ofJob files j).member = j.exportMember := by
  rw [ofJob]

/-- The module that the entry of a group is meant to be. -/
def groupModule (js : List Job) (entryDir : Path) : GroupModule where
  imports := (sourceFiles js).zipIdx.map (.ofFile entryDir)
  registry := js.map (.ofJob (sourceFiles js))

theorem entryText_toList (name : GroupName) (js : List Job) (entryDir : Path) :
    (name.entryText js entryDir).toList = (groupModule js entryDir).source name := by
  rw [GroupModule.source_eq]
  unfold GroupName.entryText
  rw [String.toList_append, String.toList_append, String.toList_append, String.toList_append]
  refine congrArg₂ _ (congrArg₂ _ (congrArg₂ _ (congrArg₂ _ ?comment ?imports) rfl) ?registry) rfl
  case comment => simp [GroupModule.comment, toString]
  case imports =>
    rw [String.toList_join, List.flatMap_map, groupModule, List.flatMap_map]
    refine List.flatMap_congr fun file _ => ?_
    rw [SpaceImport.sources_lexemes]
    simp [toString]
  case registry =>
    rw [String.toList_join, List.flatMap_map, groupModule, List.flatMap_map]
    refine List.flatMap_congr fun j _ => ?_
    simp [RegistryLine.text, toString]

end JobBundler
