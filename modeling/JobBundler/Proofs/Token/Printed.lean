import JobBundler.Entry.Basic
import JobBundler.Proofs.Token.Locality

/-!
# Printed lexemes

Words, signs and quoted texts are read back as they were printed, with a space or nothing before
them, if a word is not followed by what would make it longer.
-/

namespace JobBundler

/-! ## Letters are no white space -/

theorem Text.inRanges_disjoint {as bs : List (Nat × Nat)}
    (h : ∀ a ∈ as, ∀ b ∈ bs, a.2 < b.1 ∨ b.2 < a.1) {c : Char} (hc : inRanges as c) :
    inRanges bs c = false := by
  by_contra hb
  simp only [inRanges, List.any_eq_true, Bool.and_eq_true, decide_eq_true_eq,
    Bool.not_eq_false] at hc hb
  obtain ⟨a, ha, hac⟩ := hc
  obtain ⟨b, hb, hbc⟩ := hb
  have := h a ha b hb
  omega

theorem Text.isBlank_of_isAlphabetic {c : Char} (h : isAlphabetic c) : isBlank c = false := by
  unfold isAlphabetic at h
  split at h
  · suffices hletters : inRanges [(0x41, 0x5a), (0x61, 0x7a)] c from
      inRanges_disjoint (by decide) hletters
    simpa [inRanges] using isAlpha_iff.1 h
  · exact inRanges_disjoint (by decide +kernel) h

theorem Literal.isSpace_of_isNameStart {c : Char} (h : isNameStart c) :
    Trivia.isSpace c = false := by
  simp only [isNameStart, Bool.or_eq_true, beq_iff_eq] at h
  rcases h with (h | rfl) | rfl
  · have hne : c ≠ '\ufeff' := by
      rintro rfl
      exact absurd h (by decide +kernel)
    simpa [Trivia.isSpace, hne] using Text.isBlank_of_isAlphabetic h
  · decide
  · decide

/-! ## Gaps -/

namespace Trivia

theorem gap_of_not_isSpace {c : Char} {rest : List Char} (hc : isSpace c = false) (hs : c ≠ '/') :
    gap (c :: rest) = .ok ([], c :: rest) :=
  gap_of_apart hc (absurd · hs)

theorem gap_space {c : Char} {rest : List Char} (hc : isSpace c = false) (hs : c ≠ '/') :
    gap (' ' :: c :: rest) = .ok ([' '], c :: rest) := by
  rw [gap_cons_of_isSpace (by decide), gap_of_not_isSpace hc hs]
  rfl

end Trivia

namespace Lexeme

variable {ctx : Context} {rest : List Char}

theorem next_of_read {g : List Char} (hg : g = [] ∨ g = [' ']) {c : Char} {cs : List Char}
    (hc : Trivia.isSpace c = false) (hs : c ≠ '/') {r : Reading}
    (h : read ctx g.isEmpty c cs = .ok r) :
    next ctx (g ++ c :: cs) = .ok (.lexeme ⟨g, r.text, r.kind⟩ r.context r.rest) := by
  have hgap : Trivia.gap (g ++ c :: cs) = .ok (g, c :: cs) := by
    rcases hg with rfl | rfl
    · exact Trivia.gap_of_not_isSpace hc hs
    · exact Trivia.gap_space hc hs
  exact next_of_gap hgap h

/-! ## Words -/

/-- A text that is read as a name. -/
def IsName (name : String) : Prop :=
  ∃ c cs, name.toList = c :: cs ∧ Literal.isNameStart c ∧ cs.all Literal.isNameContinue

/-- The text does not go on as a name. -/
def EndsName (rest : List Char) : Prop :=
  rest.head?.all (!Literal.isNameContinue ·)

theorem endsName_dropWhile (cs : List Char) : EndsName (cs.dropWhile Literal.isNameContinue) := by
  have hhead := List.head?_dropWhile_not Literal.isNameContinue cs
  unfold EndsName
  generalize (cs.dropWhile Literal.isNameContinue).head? = o at hhead
  cases o with
  | none => rfl
  | some a => simpa using hhead

theorem read_name {name : String} {c : Char} {cs : List Char} (hname : name.toList = c :: cs)
    (hc : Literal.isNameStart c) (hcs : cs.all Literal.isNameContinue) (hr : EndsName rest)
    (glued : Bool) :
    read ctx glued c (cs ++ rest) =
      .ok ⟨.ident name, name.toList, ctx.after glued (.ident name), rest⟩ := by
  obtain ⟨htake, hdrop⟩ := takeWhile_append_of_all hcs hr
  have hof : String.ofList (c :: cs) = name := by rw [← hname, String.ofList_toList]
  unfold read
  simp only [hc, if_true, htake, hdrop, hof, hname]

theorem next_name {name : String} {gap : List Char} (hname : IsName name)
    (hg : gap = [] ∨ gap = [' ']) (hr : EndsName rest) :
    next ctx (gap ++ (name.toList ++ rest)) =
      .ok (.lexeme ⟨gap, name.toList, .ident name⟩ (ctx.after gap.isEmpty (.ident name)) rest) := by
  obtain ⟨c, cs, hn, hc, hcs⟩ := hname
  have hslash : c ≠ '/' := by
    rintro rfl
    exact absurd hc (by decide)
  have hread : read ctx gap.isEmpty c (cs ++ rest) = .ok ⟨.ident name, name.toList, _, rest⟩ :=
    read_name hn hc hcs hr gap.isEmpty
  rw [hn, List.cons_append]
  rw [next_of_read hg (Literal.isSpace_of_isNameStart hc) hslash hread, hn]

/-- A token of a name is the name, up to where it ends. -/
theorem name_of_read {glued : Bool} {c : Char} {cs : List Char} {r : Reading} {name : String}
    (h : read ctx glued c cs = .ok r) (hr : r.kind = .ident name) :
    IsName name ∧ r.text = name.toList ∧ EndsName r.rest ∧
      r.context = ctx.after glued (.ident name) := by
  cases read_eq_ok h with
  | name hc htext =>
    subst htext
    cases hr
    exact ⟨⟨c, _, String.toList_ofList, hc, List.all_takeWhile⟩, String.toList_ofList.symm,
      endsName_dropWhile cs, rfl⟩
  | punctuator _ hkind => exact absurd (hkind.trans hr) (Punctuator.kind_ne rfl _)
  | _ => cases hr

theorem name_of_next {ctx' : Context} {cs : List Char} {l : Lexeme} {name : String}
    (h : next ctx cs = .ok (.lexeme l ctx' rest)) (hl : l.kind = .ident name) :
    IsName name ∧ l.text = name.toList ∧ EndsName rest ∧
      ctx' = ctx.after l.gap.isEmpty (.ident name) := by
  obtain ⟨c, tl, htext, -, hread⟩ := next_eq_ok h
  rw [htext]
  exact name_of_read hread hl

theorem Reads.name_of_mem {ctx' : Context} {ls : List Lexeme} {l : Lexeme} {name : String}
    (h : Reads rest ctx ls ctx') (hl : l ∈ ls) (hname : l.kind = .ident name) :
    IsName name ∧ l.text = name.toList := by
  induction h with
  | nil => cases hl
  | cons head _ ih =>
    rcases List.mem_cons.1 hl with rfl | hl
    · obtain ⟨h, htext, -⟩ := name_of_next head hname
      exact ⟨h, htext⟩
    · exact ih hl

/-! ## Quoted texts -/

/-- The text is on one line of a source. -/
def OnOneLine (text : List Char) : Prop :=
  '\n' ∉ text ∧ '\r' ∉ text

/-- Characters that end no literal and start no escape belong to the body. -/
theorem stringBody_append_plain {quote : Char} {as : List Char}
    (h : ∀ a ∈ as, a ≠ quote ∧ a ≠ '\\' ∧ a ≠ '\n' ∧ a ≠ '\r') (rest : List Char) :
    Literal.stringBody quote (as ++ rest) = (Literal.stringBody quote rest).map (as ++ ·) id := by
  induction as with
  | nil => rfl
  | cons a as ih =>
    obtain ⟨⟨hquote, hescape, hn, hr⟩, has⟩ := List.forall_mem_cons.1 h
    rw [List.cons_append, Literal.stringBody, if_neg hquote, if_neg (by simp [hn, hr]), ih has]
    · rfl
    · rintro cs rfl
      exact absurd rfl hescape
    · rintro c cs rfl
      exact absurd rfl hescape

theorem stringBody_quote {quote : Char} (hq : quote ≠ '\\') (rest : List Char) :
    Literal.stringBody quote (quote :: rest) = ([], some rest) := by
  rw [Literal.stringBody, if_pos rfl]
  · rintro cs rfl
    exact absurd rfl hq
  · rintro c cs rfl
    exact absurd rfl hq

/-- The ways to write a character in a literal: as it is, or by a character after a backslash. -/
inductive Spelling (quote : Char) : Char → List Char → Prop
  | plain {c : Char} (h : c ≠ quote ∧ c ≠ '\\' ∧ c ≠ '\n' ∧ c ≠ '\r') : Spelling quote c [c]
  | escaped {c d : Char} (hd : d ≠ '\r') (h : ∀ cs, Token.escape (d :: cs) = ([c], 1)) :
    Spelling quote c ['\\', d]

section
variable {quote : Char} {text : List Char} {spell : Char → List Char}

/-- Characters that are written so belong to the body. -/
theorem stringBody_spelling (h : ∀ c ∈ text, Spelling quote c (spell c)) (rest : List Char) :
    Literal.stringBody quote (text.flatMap spell ++ rest) =
      (Literal.stringBody quote rest).map (text.flatMap spell ++ ·) id := by
  induction text with
  | nil => rfl
  | cons c text ih =>
    obtain ⟨hc, htext⟩ := List.forall_mem_cons.1 h
    rw [List.flatMap_cons, List.append_assoc]
    generalize spell c = written at hc
    cases hc with
    | plain hplain =>
      rw [stringBody_append_plain (by simpa using hplain), ih htext]
      rfl
    | @escaped d hd _ =>
      have hbody (cs : List Char) : Literal.stringBody quote ('\\' :: d :: cs) =
          (Literal.stringBody quote cs).map ('\\' :: d :: ·) id := by
        rw [Literal.stringBody]
        rintro more rfl
        exact absurd rfl hd
      rw [List.cons_append, List.cons_append, List.nil_append, hbody, ih htext]
      rfl

theorem stringBody_spelling_quote (hq : quote ≠ '\\') (h : ∀ c ∈ text, Spelling quote c (spell c))
    (rest : List Char) :
    Literal.stringBody quote (text.flatMap spell ++ quote :: rest) =
      (text.flatMap spell, some rest) := by
  rw [stringBody_spelling h, stringBody_quote hq]
  simp

/-- Characters that are written so are what the body stands for. -/
theorem unescape_spelling (h : ∀ c ∈ text, Spelling quote c (spell c)) :
    Token.unescape (text.flatMap spell) = text := by
  induction text with
  | nil => rw [List.flatMap_nil, Token.unescape]
  | cons c text ih =>
    obtain ⟨hc, htext⟩ := List.forall_mem_cons.1 h
    rw [List.flatMap_cons]
    generalize spell c = written at hc
    cases hc with
    | plain hplain =>
      rw [List.singleton_append, Token.unescape, ih htext]
      exact hplain.2.1
    | escaped _ hescape =>
      rw [List.cons_append, List.cons_append, List.nil_append, Token.unescape, hescape]
      exact congrArg (c :: ·) (ih htext)

end

theorem spelling_escapeQuote {text : List Char} (h : OnOneLine text) :
    ∀ c ∈ text, Spelling '\'' c (singleQuoted.escapeQuote c) := by
  intro c hc
  unfold singleQuoted.escapeQuote
  split
  · rename_i hquote
    rcases hquote with rfl | rfl
    · exact .escaped (by decide) fun _ => rfl
    · exact .escaped (by decide) fun _ => rfl
  · rename_i hquote
    rw [not_or] at hquote
    refine .plain ⟨hquote.2, hquote.1, ?_, ?_⟩
    · rintro rfl
      exact h.1 hc
    · rintro rfl
      exact h.2 hc

theorem read_quoted {text : String} (h : OnOneLine text.toList) (glued : Bool) :
    ∃ cs, (singleQuoted text).toList = '\'' :: cs ∧
      read ctx glued '\'' (cs ++ rest) =
        .ok ⟨.str text, '\'' :: cs, ctx.after false (.str text), rest⟩ := by
  refine ⟨text.toList.flatMap singleQuoted.escapeQuote ++ ['\''], ?_, ?_⟩
  · rw [singleQuoted, String.toList_ofList, List.cons_append]
  · have hspelled := spelling_escapeQuote h
    have hbody := stringBody_spelling_quote (by decide) hspelled rest
    have hread (cs : List Char) : read ctx glued '\'' cs = readString ctx '\'' cs := rfl
    rw [hread, List.append_assoc, List.singleton_append, readString, hbody]
    simp only [unescape_spelling hspelled, String.ofList_toList]

/-! ## The lexemes of an import -/

/-- The lexeme of a word after a space. -/
def word (name : String) : Lexeme :=
  ⟨[' '], name.toList, .ident name⟩

/-- The lexeme of a quoted text after a space. -/
def quoted (text : String) : Lexeme :=
  ⟨[' '], (singleQuoted text).toList, .str text⟩

def comma : Lexeme :=
  ⟨[], [','], .comma⟩

def semicolon : Lexeme :=
  ⟨[], [';'], .semicolon⟩

def star : Lexeme :=
  ⟨[' '], ['*'], .star⟩

def openBrace : Lexeme :=
  ⟨[' '], ['{'], .opening .brace⟩

def closeBrace : Lexeme :=
  ⟨[' '], ['}'], .closing .brace⟩

/-- A lexeme that opens and closes nothing. -/
inductive IsFlat : Lexeme → Prop
  | word {name : String} (h : IsName name) : IsFlat (word name)
  | quoted {text : String} (h : OnOneLine text.toList) : IsFlat (quoted text)
  | comma : IsFlat comma
  | star : IsFlat star

/-- The text starts as no lexeme goes on. -/
def StartsApart (rest : List Char) : Prop :=
  rest.head?.all ([' ', ',', ';'].contains ·)

theorem StartsApart.endsName (h : StartsApart rest) : EndsName rest := by
  cases rest with
  | nil => rfl
  | cons c cs =>
    simp only [StartsApart, List.head?_cons, Option.all_some, List.contains_cons, Bool.or_eq_true,
      beq_iff_eq, List.contains_nil, Bool.false_eq_true, or_false] at h
    rcases h with rfl | rfl | rfl <;> rfl

theorem IsFlat.startsApart {l : Lexeme} (h : IsFlat l) (cs : List Char) :
    StartsApart (l.source ++ cs) := by
  cases h <;> rfl

theorem next_star {b : Bool} {d : Nat} {s : List Nat} (h : StartsApart rest) :
    next ⟨d, s, b⟩ (star.source ++ rest) = .ok (.lexeme star ⟨d, s, true⟩ rest) := by
  have hread : read ⟨d, s, b⟩ false '*' rest = .ok ⟨.star, ['*'], ⟨d, s, true⟩, rest⟩ := by
    cases rest with
    | nil => rfl
    | cons c cs =>
      simp only [StartsApart, List.head?_cons, Option.all_some, List.contains_cons, Bool.or_eq_true,
        beq_iff_eq, List.contains_nil, Bool.false_eq_true, or_false] at h
      rcases h with rfl | rfl | rfl <;> rfl
  exact next_of_read (.inr rfl) (by decide) (by decide) hread

theorem next_flat {l : Lexeme} (h : IsFlat l) {b : Bool} {d : Nat} {s : List Nat}
    (hr : StartsApart rest) :
    ∃ b', next ⟨d, s, b⟩ (l.source ++ rest) = .ok (.lexeme l ⟨d, s, b'⟩ rest) := by
  cases h with
  | word h => exact ⟨_, next_name h (.inr rfl) hr.endsName⟩
  | @quoted text h =>
    obtain ⟨cs, hcs, hread⟩ : ∃ cs, (singleQuoted text).toList = '\'' :: cs ∧
        read ⟨d, s, b⟩ false '\'' (cs ++ rest) = .ok ⟨.str text, '\'' :: cs, _, rest⟩ :=
      read_quoted h false
    have hnext := next_of_read (g := [' ']) (.inr rfl) (by decide) (by decide) hread
    rw [source, quoted, hcs]
    exact ⟨_, hnext⟩
  | comma => exact ⟨_, next_of_read (g := []) (c := ',') (.inl rfl) (by decide) (by decide) rfl⟩
  | star => exact ⟨_, next_star hr⟩

theorem startsApart_sources {ls : List Lexeme} (h : ∀ l ∈ ls, IsFlat l) (hr : StartsApart rest) :
    StartsApart (sources ls ++ rest) := by
  cases ls with
  | nil => exact hr
  | cons l ls =>
    rw [sources_cons, List.append_assoc]
    exact (h l List.mem_cons_self).startsApart _

theorem reads_flat {ls : List Lexeme} (h : ∀ l ∈ ls, IsFlat l) (hr : StartsApart rest) (b : Bool)
    (d : Nat) (s : List Nat) : ∃ b', Reads rest ⟨d, s, b⟩ ls ⟨d, s, b'⟩ := by
  induction ls generalizing b with
  | nil => exact ⟨b, .nil⟩
  | cons l ls ih =>
    have hls : ∀ l ∈ ls, IsFlat l := fun l hl => h l (List.mem_cons_of_mem _ hl)
    obtain ⟨b₁, hl⟩ := next_flat (b := b) (d := d) (s := s) (h l List.mem_cons_self)
      (startsApart_sources hls hr)
    obtain ⟨b₂, hrest⟩ := ih hls b₁
    exact ⟨b₂, .cons hl hrest⟩

theorem next_openBrace (b : Bool) (d : Nat) (s : List Nat) (rest : List Char) :
    next ⟨d, s, b⟩ (openBrace.source ++ rest) =
      .ok (.lexeme openBrace ⟨d + 1, s, true⟩ rest) :=
  next_of_read (g := [' ']) (c := '{') (.inr rfl) (by decide) (by decide) rfl

theorem read_closeBrace (b glued : Bool) (d : Nat) (rest : List Char) :
    read ⟨d + 1, [], b⟩ glued '}' rest = .ok ⟨.closing .brace, ['}'], ⟨d, [], false⟩, rest⟩ := by
  show readClosingBrace ⟨d + 1, [], b⟩ rest = _
  unfold readClosingBrace
  rw [if_neg (by simp), if_neg (Nat.succ_ne_zero d)]
  rfl

theorem next_closeBrace (b : Bool) (d : Nat) (rest : List Char) :
    next ⟨d + 1, [], b⟩ (closeBrace.source ++ rest) =
      .ok (.lexeme closeBrace ⟨d, [], false⟩ rest) :=
  next_of_read (g := [' ']) (.inr rfl) (by decide) (by decide) (read_closeBrace b false d rest)

theorem next_semicolon (ctx : Context) (rest : List Char) :
    next ctx (semicolon.source ++ rest) =
      .ok (.lexeme semicolon (ctx.after true .semicolon) rest) :=
  next_of_read (g := []) (c := ';') (.inl rfl) (by decide) (by decide) rfl

/-- Flat lexemes between braces. -/
theorem reads_braces {ls : List Lexeme} (h : ∀ l ∈ ls, IsFlat l) (b : Bool) (d : Nat)
    (rest : List Char) :
    Reads rest ⟨d, [], b⟩ (openBrace :: (ls ++ [closeBrace])) ⟨d, [], false⟩ := by
  have hclose : StartsApart (sources [closeBrace] ++ rest) := rfl
  obtain ⟨b', hls⟩ := reads_flat h hclose true (d + 1) []
  exact .cons (next_openBrace b d [] _) (hls.append (.cons (next_closeBrace b' d _) .nil))

end Lexeme

end JobBundler
