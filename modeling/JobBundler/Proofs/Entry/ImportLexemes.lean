import JobBundler.Entry.Import
import JobBundler.Proofs.Token.Printed

/-!
# The lexemes of reduced imports

A reduced import is printed as a list of lexemes (`ImportDecl.head`), which are read back as they are
(`ImportDecl.reads_head`), and the attributes of the source.
-/

namespace JobBundler

open Lexeme

variable {rest : List Char}

/-! ## Specifiers between braces -/

namespace NamedImport

/-- The lexemes of a specifier, each after a space. -/
def lexemes (n : NamedImport) : List Lexeme :=
  (if n.typeOnly then [word "type"] else []) ++
    (if isIdentifier n.imported then word n.imported else quoted n.imported) ::
      (if n.imported = n.binding then [] else [word "as", word n.binding])

theorem isName_of_isIdentifier {name : String} (h : isIdentifier name) : IsName name := by
  unfold isIdentifier at h
  split at h
  · cases h
  · rename_i c cs hname
    rw [Bool.and_eq_true] at h
    refine ⟨c, cs, hname, h.1, List.all_eq_true.2 fun a ha => ?_⟩
    have := List.all_eq_true.1 h.2 a ha
    simp only [Literal.isNameContinue, Bool.or_eq_true] at this ⊢
    exact .inl (.inl this)

theorem isFlat_of_mem_lexemes {n : NamedImport} (hb : IsName n.binding)
    (hi : OnOneLine n.imported.toList) {l : Lexeme} (hl : l ∈ n.lexemes) : IsFlat l := by
  unfold lexemes at hl
  have himported : IsFlat (if isIdentifier n.imported then word n.imported else quoted n.imported) := by
    split
    · rename_i h
      exact .word (isName_of_isIdentifier h)
    · exact .quoted hi
  rcases List.mem_append.1 hl with hl | hl
  · split at hl
    · obtain rfl := List.mem_singleton.1 hl
      exact .word (isName_of_isIdentifier (by decide))
    · cases hl
  · rcases List.mem_cons.1 hl with rfl | hl
    · exact himported
    · split at hl
      · cases hl
      · simp only [List.mem_cons, List.not_mem_nil, or_false] at hl
        rcases hl with rfl | rfl
        · exact .word (isName_of_isIdentifier (by decide))
        · exact .word hb

theorem sources_lexemes (n : NamedImport) : sources n.lexemes = ' ' :: n.render.toList := by
  have hmark : sources (if n.typeOnly then [word "type"] else []) =
      if n.typeOnly then " type".toList else [] := by
    split <;> rfl
  have himported : (if isIdentifier n.imported then word n.imported else quoted n.imported).source =
      ' ' :: (if isIdentifier n.imported then n.imported else singleQuoted n.imported).toList := by
    split <;> rfl
  have hrenamed : sources (if n.imported = n.binding then [] else [word "as", word n.binding]) =
      (if n.imported = n.binding then "" else s!" as {n.binding}").toList := by
    split
    · rfl
    · simp [source, word, toString]
  rw [lexemes, render, sources_append, sources_cons, hmark, himported, hrenamed]
  split <;> simp

/-- The lexemes of specifiers with commas between them. -/
def listLexemes : List NamedImport → List Lexeme
  | [] => []
  | [n] => n.lexemes
  | n :: m :: ns => n.lexemes ++ comma :: listLexemes (m :: ns)

theorem sources_listLexemes {ns : List NamedImport} (h : ns ≠ []) :
    sources (listLexemes ns) = ' ' :: (", ".intercalate (ns.map (·.render))).toList := by
  fun_induction listLexemes ns with
  | case1 => exact absurd rfl h
  | case2 n => simp [sources_lexemes, String.intercalate_singleton]
  | case3 n m ns ih =>
    rw [sources_append, sources_cons, ih (by simp), sources_lexemes]
    simp [String.intercalate_cons_cons, comma, source]

theorem isFlat_of_mem_listLexemes {ns : List NamedImport}
    (h : ∀ n ∈ ns, IsName n.binding ∧ OnOneLine n.imported.toList) {l : Lexeme}
    (hl : l ∈ listLexemes ns) : IsFlat l := by
  fun_induction listLexemes ns with
  | case1 => cases hl
  | case2 n =>
    obtain ⟨hb, hi⟩ := h n List.mem_cons_self
    exact isFlat_of_mem_lexemes hb hi hl
  | case3 n m ns ih =>
    rcases List.mem_append.1 hl with hl | hl
    · obtain ⟨hb, hi⟩ := h n List.mem_cons_self
      exact isFlat_of_mem_lexemes hb hi hl
    · rcases List.mem_cons.1 hl with rfl | hl
      · exact .comma
      · exact ih (fun n hn => h n (List.mem_cons_of_mem _ hn)) hl

end NamedImport

/-! ## Declarations -/

namespace ImportDecl

/-- The declaration with the names in `used` only. -/
def keep (used : NameSet) (d : ImportDecl) : ImportDecl :=
  { d with
    defaultBinding := d.defaultBinding.filter used.contains
    namespaceBinding := d.namespaceBinding.filter used.contains
    named := d.named.filter fun n => used.contains n.binding }

/-- The lexemes of a namespace or of names between braces. -/
def innerLexemes (d : ImportDecl) : List Lexeme :=
  match d.namespaceBinding with
  | some name => [star, word "as", word name]
  | none => openBrace :: (NamedImport.listLexemes d.named ++ [closeBrace])

/-- The lexemes of what an import binds. -/
def clauseLexemes (d : ImportDecl) : List Lexeme :=
  match d.defaultBinding with
  | some name =>
    if d.namespaceBinding = none ∧ d.named = [] then [word name]
    else word name :: comma :: d.innerLexemes
  | none => d.innerLexemes

/-- The lexemes of an import up to its module specifier. -/
def head (d : ImportDecl) (specifier : String) : List Lexeme :=
  ⟨[], "import".toList, .ident "import"⟩ ::
    ((if d.typeOnly then [word "type"] else []) ++
      (d.clauseLexemes ++ [word "from", quoted specifier]))

theorem clauses_eq {d : ImportDecl} (h : d.namespaceBinding = none ∨ d.named = [])
    (hne : d.bindings ≠ []) :
    ∃ clause, clauses d.defaultBinding d.namespaceBinding (d.named.map (·.render)) = [clause] ∧
      sources d.clauseLexemes = ' ' :: clause.toList := by
  obtain ⟨_, defaultBinding, namespaceBinding, named, _, _, _⟩ := d
  have hbraces {named : List NamedImport} (hnamed : named ≠ []) :
      sources (openBrace :: (NamedImport.listLexemes named ++ [closeBrace])) =
        ' ' :: ("\x7b " ++ ", ".intercalate (named.map (·.render)) ++ " \x7d").toList := by
    simp [NamedImport.sources_listLexemes hnamed, openBrace, closeBrace, source]
  have hstar (name : String) :
      sources [star, word "as", word name] = ' ' :: s!"* as {name}".toList := by
    simp [Lexeme.star, word, source, toString]
  have hdefault (name clause : String) (ls : List Lexeme) (hls : sources ls = ' ' :: clause.toList) :
      sources (word name :: comma :: ls) = ' ' :: s!"{name}, {clause}".toList := by
    simp [hls, word, comma, source, toString]
  cases namespaceBinding with
  | some space =>
    obtain rfl : named = [] := h.resolve_left (by simp)
    cases defaultBinding with
    | none => exact ⟨_, rfl, hstar space⟩
    | some name => exact ⟨_, rfl, hdefault name _ _ (hstar space)⟩
  | none =>
    cases named with
    | nil =>
      cases defaultBinding with
      | none => exact absurd rfl hne
      | some name => exact ⟨name, rfl, by simp [clauseLexemes, word, source]⟩
    | cons n ns =>
      cases defaultBinding with
      | none => exact ⟨_, rfl, hbraces (List.cons_ne_nil n ns)⟩
      | some name => exact ⟨_, rfl, hdefault name _ _ (hbraces (List.cons_ne_nil n ns))⟩

theorem keep_alone {d : ImportDecl} (h : d.namespaceBinding = none ∨ d.named = []) (used : NameSet) :
    (d.keep used).namespaceBinding = none ∨ (d.keep used).named = [] :=
  h.imp (fun h => by simp [keep, h]) (fun h => by simp [keep, h])

theorem bindings_keep (used : NameSet) (d : ImportDecl) :
    (d.keep used).bindings = d.bindings.filter used.contains := by
  have hoption (o : Option String) : (o.filter used.contains).toList =
      o.toList.filter used.contains := by
    cases o with
    | none => rfl
    | some name => simp only [Option.filter_some, Option.toList_some]; split <;> simp [*]
  simp only [bindings, keep, hoption, List.filter_append, List.filter_map]
  rfl

/-- The text after the module specifier. -/
def attributeText (source : String) (d : ImportDecl) : String :=
  match d.attributes with
  | some span => " " ++ span.slice source
  | none => ""

theorem reduce_eq_map (used : NameSet) (source : String) (sourceDir entryDir : Path)
    (d : ImportDecl) :
    d.reduce used source sourceDir entryDir =
      (clauses (d.keep used).defaultBinding (d.keep used).namespaceBinding
        ((d.keep used).named.map (·.render))).map fun clause =>
          (if d.typeOnly then "import type" else "import") ++ " " ++ clause ++ " from " ++
            singleQuoted (Specifier.rebase d.specifier sourceDir entryDir) ++
              d.attributeText source ++ ";" :=
  rfl

/-- A reduced import is a line of lexemes and attributes, or nothing when it binds nothing. -/
theorem reduce_eq {d : ImportDecl} (h : d.namespaceBinding = none ∨ d.named = []) (used : NameSet)
    (source : String) (sourceDir entryDir : Path) :
    ((d.keep used).bindings = [] ∧ d.reduce used source sourceDir entryDir = []) ∨
      ((d.keep used).bindings ≠ [] ∧ ∃ line, d.reduce used source sourceDir entryDir = [line] ∧
        line.toList = sources ((d.keep used).head (Specifier.rebase d.specifier sourceDir entryDir)) ++
          ((d.attributeText source).toList ++ [';'])) := by
  rw [reduce_eq_map]
  by_cases hb : (d.keep used).bindings = []
  · refine .inl ⟨hb, ?_⟩
    simp only [bindings, List.append_eq_nil_iff, Option.toList_eq_nil_iff, List.map_eq_nil_iff] at hb
    obtain ⟨⟨hdefault, hspace⟩, hnamed⟩ := hb
    rw [hdefault, hspace, hnamed]
    rfl
  · obtain ⟨clause, hclause, htext⟩ := clauses_eq (keep_alone h used) hb
    refine .inr ⟨hb, _, by rw [hclause]; rfl, ?_⟩
    have htype : (d.keep used).typeOnly = d.typeOnly := rfl
    rw [head, htype]
    by_cases ht : d.typeOnly
    · rw [if_pos ht, if_pos ht]
      simp [htext, Lexeme.source, word, quoted]
    · rw [if_neg ht, if_neg ht]
      simp [htext, Lexeme.source, word, quoted]

/-! ## Reading the lexemes -/

/-- The names that are printed are names, and the other texts are on one line. -/
structure IsPrintable (d : ImportDecl) : Prop where
  bindings : ∀ b ∈ d.bindings, IsName b
  imported : ∀ n ∈ d.named, OnOneLine n.imported.toList

theorem IsPrintable.keep {d : ImportDecl} (h : d.IsPrintable) (used : NameSet) :
    (d.keep used).IsPrintable where
  bindings b hb := by
    rw [bindings_keep] at hb
    exact h.bindings b (List.mem_filter.1 hb).1
  imported n hn := h.imported n (List.mem_filter.1 hn).1

theorem reads_inner {d : ImportDecl} (h : d.IsPrintable) (hr : StartsApart rest) (b : Bool) :
    ∃ b', Reads rest ⟨0, [], b⟩ d.innerLexemes ⟨0, [], b'⟩ := by
  unfold innerLexemes
  split
  · rename_i name hname
    refine reads_flat (fun l hl => ?_) hr b 0 []
    have hb : IsName name := h.bindings name (by simp [bindings, hname])
    simp only [List.mem_cons, List.not_mem_nil, or_false] at hl
    rcases hl with rfl | rfl | rfl
    · exact .star
    · exact .word (NamedImport.isName_of_isIdentifier (by decide))
    · exact .word hb
  · refine ⟨false, reads_braces (fun l hl => ?_) b 0 rest⟩
    refine NamedImport.isFlat_of_mem_listLexemes (fun n hn => ⟨h.bindings _ ?_, h.imported n hn⟩) hl
    exact List.mem_append_right _ (List.mem_map_of_mem hn)

theorem startsApart_inner (d : ImportDecl) (rest : List Char) :
    StartsApart (sources d.innerLexemes ++ rest) := by
  unfold innerLexemes
  split <;> rfl

theorem reads_clause {d : ImportDecl} (h : d.IsPrintable) (hr : StartsApart rest) (b : Bool) :
    ∃ b', Reads rest ⟨0, [], b⟩ d.clauseLexemes ⟨0, [], b'⟩ := by
  unfold clauseLexemes
  split
  · rename_i name hname
    have hb : IsName name := h.bindings name (by simp [bindings, hname])
    split
    · exact reads_flat (by simpa using .word hb) hr b 0 []
    · have hflat : ∀ l ∈ [word name, comma], IsFlat l := by
        simpa using ⟨.word hb, .comma⟩
      obtain ⟨b₁, h₁⟩ := reads_flat hflat (d.startsApart_inner rest) b 0 []
      obtain ⟨b₂, h₂⟩ := reads_inner h hr b₁
      exact ⟨b₂, h₁.append h₂⟩
  · exact reads_inner h hr b

theorem startsApart_clause (d : ImportDecl) (rest : List Char) :
    StartsApart (sources d.clauseLexemes ++ rest) := by
  unfold clauseLexemes
  split
  · split <;> rfl
  · exact d.startsApart_inner rest

/-- The lexemes of a printed import are what is read of it, before any text that starts with a space
or a semicolon. -/
theorem reads_head {d : ImportDecl} (h : d.IsPrintable) {specifier : String}
    (hs : OnOneLine specifier.toList) (hr : StartsApart rest) :
    ∃ b, Reads rest .initial (d.head specifier) ⟨0, [], b⟩ := by
  have hlast : ∀ l ∈ [word "from", quoted specifier], IsFlat l := by
    intro l hl
    simp only [List.mem_cons, List.not_mem_nil, or_false] at hl
    rcases hl with rfl | rfl
    · exact .word (NamedImport.isName_of_isIdentifier (by decide))
    · exact .quoted hs
  have hmark : ∀ l ∈ (if d.typeOnly then [word "type"] else []), IsFlat l := by
    split
    · simpa using IsFlat.word (NamedImport.isName_of_isIdentifier (by decide))
    · simp
  have hclause : StartsApart (sources (d.clauseLexemes ++ [word "from", quoted specifier]) ++ rest) := by
    rw [sources_append, List.append_assoc]
    exact d.startsApart_clause _
  obtain ⟨b₁, h₁⟩ := reads_flat hmark hclause false 0 []
  obtain ⟨b₂, h₂⟩ := reads_clause h (startsApart_sources hlast hr) b₁
  obtain ⟨b₃, h₃⟩ := reads_flat hlast hr b₂ 0 []
  have hrest := startsApart_sources hmark hclause
  rw [← List.append_assoc, ← sources_append] at hrest
  have himport : IsName "import" := NamedImport.isName_of_isIdentifier (by decide)
  exact ⟨b₃, .cons (next_name himport (.inl rfl) hrest.endsName) (h₁.append (h₂.append h₃))⟩

end ImportDecl

end JobBundler
