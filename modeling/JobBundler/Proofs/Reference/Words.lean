import JobBundler.Proofs.Index
import JobBundler.Proofs.Token.Lossless
import JobBundler.Reference

/-!
# Words and identifiers

Searching a text for words is meant to find at least the identifiers that its tokens have. It knows ASCII
word characters only, which all continue a name, so a name ends where the word does. What stands before an
identifier ends in no word character either, with one exception: a number ends where a name goes on with a
dollar sign or a letter beyond ASCII, as in `1$`. The search misses exactly those names all whose tokens
are glued to numbers in this way and which stand nowhere else (`Reference.textual_keeps_iff`).
-/

namespace JobBundler

open Lexeme (sources)

namespace Reference

/-! ## Whole words -/

/-- No word character stands at the end of the text. -/
def EndsApart (cs : List Char) : Prop :=
  cs.getLast?.any isWordChar = false

/-- No word character stands at the front of the text. -/
def BeginsApart (cs : List Char) : Prop :=
  cs.head?.any isWordChar = false

/-- The word stands at byte `n` of the text, with no word character on either side. -/
def WordAt (text word : String) (n : Nat) : Prop :=
  ∃ before after, text.toList = before ++ word.toList ++ after ∧ Text.byteLength before = n ∧
    EndsApart before ∧ BeginsApart after

theorem startsWithWord_iff {word cs : List Char} :
    startsWithWord word cs ↔ ∃ after, cs = word ++ after ∧ BeginsApart after := by
  rw [startsWithWord, Bool.and_eq_true, List.isPrefixOf_iff_prefix, Bool.not_eq_true']
  constructor
  · rintro ⟨⟨after, rfl⟩, h⟩
    exact ⟨after, rfl, by rwa [List.drop_left] at h⟩
  · rintro ⟨after, rfl, h⟩
    exact ⟨List.prefix_append _ _, by rwa [List.drop_left]⟩

theorem mentionsAfter_iff {word cs : List Char} {previous : Option Char} :
    mentionsAfter word previous cs ↔ ∃ before after, cs = before ++ word ++ after ∧
      (before.getLast?.or previous).any isWordChar = false ∧ BeginsApart after := by
  fun_induction mentionsAfter word previous cs with
  | case1 previous =>
    rw [Bool.and_eq_true, Bool.not_eq_true', startsWithWord_iff]
    constructor
    · rintro ⟨hprevious, after, hcs, hafter⟩
      exact ⟨[], after, hcs, hprevious, hafter⟩
    · rintro ⟨before, after, hcs, hbefore, hafter⟩
      obtain ⟨hnil, rfl⟩ := List.append_eq_nil_iff.1 hcs.symm
      obtain ⟨rfl, rfl⟩ := List.append_eq_nil_iff.1 hnil
      exact ⟨hbefore, [], rfl, hafter⟩
  | case2 previous c cs ih =>
    rw [Bool.or_eq_true, Bool.and_eq_true, Bool.not_eq_true', startsWithWord_iff, ih]
    constructor
    · rintro (⟨hprevious, after, hcs, hafter⟩ | ⟨before, after, rfl, hbefore, hafter⟩)
      · exact ⟨[], after, hcs, hprevious, hafter⟩
      · refine ⟨c :: before, after, rfl, ?_, hafter⟩
        rw [List.getLast?_cons]
        cases h : before.getLast? <;> simpa [h] using hbefore
    · rintro ⟨before, after, hcs, hbefore, hafter⟩
      cases before with
      | nil => exact .inl ⟨hbefore, after, hcs, hafter⟩
      | cons b before =>
        obtain ⟨rfl, rfl⟩ := List.cons.inj hcs
        refine .inr ⟨before, after, rfl, ?_, hafter⟩
        rw [List.getLast?_cons] at hbefore
        cases h : before.getLast? <;> simpa [h] using hbefore

/-- A text mentions the words that stand in it. -/
theorem mentions_iff {text word : String} : mentions text word ↔ ∃ n, WordAt text word n := by
  rw [mentions, mentionsAfter_iff]
  constructor
  · rintro ⟨before, after, htext, hbefore, hafter⟩
    exact ⟨_, before, after, htext, rfl, by rwa [Option.or_none] at hbefore, hafter⟩
  · rintro ⟨-, before, after, htext, -, hbefore, hafter⟩
    exact ⟨before, after, htext, by rwa [Option.or_none], hafter⟩

/-! ## Word characters -/

/-- The code points of the word characters. -/
def wordRanges : List (Nat × Nat) :=
  [(0x24, 0x24), (0x30, 0x39), (0x41, 0x5a), (0x5f, 0x5f), (0x61, 0x7a)]

theorem inRanges_of_isWordChar {c : Char} (h : isWordChar c) : Text.inRanges wordRanges c := by
  simp only [isWordChar, Char.isAlphanum, Bool.or_eq_true, Text.isAlpha_iff, Char.isDigit_iff_toNat,
    beq_iff_eq] at h
  have hranges : Text.inRanges wordRanges c ↔ c.toNat = 0x24 ∨ (0x30 ≤ c.toNat ∧ c.toNat ≤ 0x39) ∨
      (0x41 ≤ c.toNat ∧ c.toNat ≤ 0x5a) ∨ c.toNat = 0x5f ∨ 0x61 ≤ c.toNat ∧ c.toNat ≤ 0x7a := by
    simp [Text.inRanges, wordRanges]
    omega
  rw [hranges]
  rcases h with (((h | h) | h) | rfl) | rfl
  · exact .inr (.inr (.inl h))
  · exact .inr (.inr (.inr (.inr h)))
  · exact .inr (.inl h)
  · decide
  · decide

/-- A word character continues a name. -/
theorem isNameContinue_of_isWordChar {c : Char} (h : isWordChar c) : Literal.isNameContinue c := by
  have hascii : c.toNat < 0x80 := by
    have hc := inRanges_of_isWordChar h
    simp [Text.inRanges, wordRanges] at hc
    omega
  simp only [isWordChar, Bool.or_eq_true, Char.isAlphanum] at h
  simp only [Literal.isNameContinue, Text.isAlphanumeric, Text.isAlphabetic, Text.isNumeric, if_pos hascii,
    Bool.or_eq_true]
  rcases h with (hc | hc) | hc
  · exact .inl (.inl (.inl (.inl hc)))
  · exact .inl (.inl (.inl (.inr hc)))
  · exact .inl (.inl (.inr hc))

theorem isWordChar_of_isSpace {c : Char} (h : Trivia.isSpace c) : isWordChar c = false := by
  by_contra hc
  have hword := inRanges_of_isWordChar (Bool.not_eq_false _ ▸ hc)
  rw [Trivia.isSpace, Bool.or_eq_true, beq_iff_eq] at h
  rcases h with hblank | rfl
  · rw [Text.isBlank, Text.inRanges_disjoint (by decide) hword] at hblank
    cases hblank
  · exact absurd hword (by decide)

theorem beginsApart_of_endsName {rest : List Char} (h : Lexeme.EndsName rest) : BeginsApart rest := by
  cases rest with
  | nil => rfl
  | cons c cs =>
    by_contra hc
    have hword : isWordChar c := by simpa [BeginsApart] using hc
    have hend : Literal.isNameContinue c = false := by simpa [Lexeme.EndsName] using h
    rw [isNameContinue_of_isWordChar hword] at hend
    cases hend

/-! ## What stands before an identifier -/

theorem endsApart_cons {c : Char} {cs : List Char} (h : EndsApart cs) (hc : cs = [] → isWordChar c = false) :
    EndsApart (c :: cs) := by
  cases cs with
  | nil => exact hc rfl
  | cons d ds =>
    rw [EndsApart, List.getLast?_cons_cons]
    exact h

theorem endsApart_append_iff {a b : List Char} (hb : b ≠ []) : EndsApart (a ++ b) ↔ EndsApart b := by
  rw [EndsApart, List.getLast?_append_of_ne_nil _ hb]
  rfl

theorem endsApart_append {a b : List Char} (hb : EndsApart b) (ha : b = [] → EndsApart a) :
    EndsApart (a ++ b) := by
  by_cases hnil : b = []
  · rw [hnil, List.append_nil]
    exact ha hnil
  · exact (endsApart_append_iff hnil).2 hb

theorem endsApart_sources_concat {front : List Lexeme} {p : Lexeme} (hp : p.text ≠ []) :
    EndsApart (sources (front ++ [p])) ↔ EndsApart p.text := by
  rw [Lexeme.sources_append, Lexeme.sources_cons, Lexeme.sources_nil, List.append_nil, Lexeme.source,
    ← List.append_assoc, endsApart_append_iff hp]

/-- A gap ends in white space or a sign. -/
theorem endsApart_of_isGap {g : List Char} (h : Trivia.IsGap false g) : EndsApart g := by
  induction h with
  | nil => rfl
  | space hc _ ih => exact endsApart_cons ih fun _ => isWordChar_of_isSpace hc
  | lineComment _ hend _ ih =>
    refine endsApart_append (a := '/' :: '/' :: _) ih ?_
    rintro rfl
    cases hend
  | @blockComment body cs _ _ ih =>
    have hend : EndsApart ('/' :: '*' :: (body ++ ['*', '/'])) := by
      simp [EndsApart, List.getLast?_cons, isWordChar]
    have hcs : '/' :: '*' :: (body ++ '*' :: '/' :: cs) = '/' :: '*' :: (body ++ ['*', '/']) ++ cs := by simp
    exact hcs ▸ endsApart_append ih fun _ => hend

theorem endsApart_of_isGapAfter {α : Type} {front : List α} {g : List Char}
    (h : Trivia.IsGapAfter front false g) : EndsApart g := by
  cases front with
  | cons => exact endsApart_of_isGap h
  | nil =>
    cases h with
    | plain h => exact endsApart_of_isGap h
    | hashbang _ hend h =>
      refine endsApart_append (a := '#' :: '!' :: _) (endsApart_of_isGap h) ?_
      rintro rfl
      cases hend

theorem endsApart_of_front? {cs text : List Char} (h : Punctuator.front? cs = some text) :
    EndsApart text := by
  have hlong : ∀ p ∈ Punctuator.long, EndsApart p.toList := by unfold EndsApart; decide
  have hshort : ∀ c ∈ Punctuator.short, EndsApart [c] := by
    simp [EndsApart, Punctuator.short, isWordChar]
  unfold Punctuator.front? at h
  split at h
  · rename_i p hp
    cases h
    exact hlong p (List.mem_of_find?_eq_some hp)
  · split at h <;> cases h
    rename_i hc
    exact hshort _ (List.contains_iff_mem.1 hc)
  · cases h

theorem endsApart_chunk (c : Char) (text : List Char) (chunkEnd : Literal.ChunkEnd) :
    EndsApart (c :: (text ++ chunkEnd.text)) := by
  cases chunkEnd <;> simp [EndsApart, List.getLast?_cons, Literal.ChunkEnd.text, isWordChar]

/-- A token other than a number ends in no word character, or where no name goes on. -/
theorem ends_of_read {ctx : Context} {glued : Bool} {c : Char} {cs : List Char} {r : Lexeme.Reading}
    (h : Lexeme.read ctx glued c cs = .ok r) :
    (∃ digits, r.kind = .number digits) ∨ Lexeme.EndsName r.rest ∨ EndsApart r.text := by
  cases Lexeme.read_eq_ok h with
  | name | privateName | regex => exact .inr (.inl (Lexeme.endsName_dropWhile _))
  | number => exact .inl ⟨_, rfl⟩
  | string hc =>
    refine .inr (.inr ?_)
    rcases hc with rfl | rfl <;> simp [EndsApart, List.getLast?_cons, isWordChar]
  | chunk | nextChunk => exact .inr (.inr (endsApart_chunk ..))
  | openingBrace hc | closingBrace hc =>
    subst hc
    exact .inr (.inr rfl)
  | punctuator hfront => exact .inr (.inr (endsApart_of_front? hfront))

end Reference

namespace Reference

variable {cs : List Char} {y : Lexing} {as bs : List Lexeme} {l : Lexeme} {name : String}

/-- What stands before an identifier ends in no word character, unless a number is glued to it. -/
theorem endsApart_before (h : Lexing.ofSource cs = .ok y) (hy : y.lexemes = as ++ l :: bs)
    (hname : l.kind = .ident name) :
    EndsApart (sources as ++ l.gap) ∨
      ∃ front p digits, as = front ++ [p] ∧ l.gap = [] ∧ p.kind = .number digits := by
  by_cases hgap : l.gap = []
  swap
  · exact .inl (endsApart_append (endsApart_of_isGapAfter (Lexing.isGapAfter_of_ofSource h hy))
      fun hnil => absurd hnil hgap)
  rcases List.eq_nil_or_concat' as with rfl | ⟨front, p, rfl⟩
  · rw [hgap]
    exact .inl rfl
  have hy' : y.lexemes = front ++ p :: l :: bs := by simpa using hy
  obtain ⟨ctx, ctx', glued, c, tl, htext, hread, -⟩ := Lexing.exists_read h hy'
  rcases ends_of_read hread with ⟨digits, hdigits⟩ | hends | hapart
  · exact .inr ⟨front, p, digits, rfl, hgap, hdigits⟩
  · -- A name would have gone on with the identifier.
    obtain ⟨⟨d, ds, hd, hstart, -⟩, hl⟩ :=
      Lexing.name_of_mem h (hy ▸ List.mem_append_right _ List.mem_cons_self) hname
    have hnot : Literal.isNameContinue d = false := by
      simpa [Lexeme.EndsName, Lexeme.source, hgap, hl, hd] using hends
    rw [Literal.isNameContinue_of_isNameStart hstart] at hnot
    cases hnot
  · rw [hgap, List.append_nil, endsApart_sources_concat (htext ▸ List.cons_ne_nil c tl)]
    exact .inl (htext ▸ hapart)

/-- An identifier stands as a word where no word character stands before it. -/
theorem wordAt_after_iff {text : String} (h : Lexing.ofSource text.toList = .ok y)
    (hy : y.lexemes = as ++ l :: bs) (hname : l.kind = .ident name) :
    WordAt text name (Token.after as l).span.start ↔ EndsApart (sources as ++ l.gap) := by
  obtain ⟨-, hl⟩ := Lexing.name_of_mem h (hy ▸ List.mem_append_right _ List.mem_cons_self) hname
  have hsource : text.toList = sources as ++ l.gap ++ name.toList ++ (sources bs ++ y.trailing) := by
    rw [← Lexing.source_of_ofSource h, hy]
    simp [Lexeme.source, hl]
  constructor
  · rintro ⟨before, after, htext, hlength, hbefore, -⟩
    rw [hsource, List.append_assoc, List.append_assoc before] at htext
    exact Text.eq_of_append_eq htext hlength.symm ▸ hbefore
  · intro hbefore
    obtain ⟨ctx, ctx', glued, c, tl, htext, hread, -⟩ := Lexing.exists_read h hy
    obtain ⟨-, -, hends, -⟩ := Lexeme.name_of_read hread hname
    exact ⟨_, _, hsource, rfl, hbefore, beginsApart_of_endsName hends⟩

end Reference

/-- A number that ends in a word character. -/
def TokenKind.isWordNumber : TokenKind → Bool
  | .number digits => digits.toList.getLast?.any Reference.isWordChar
  | _ => false

/-- The token stands directly after a number that ends in a word character. -/
def Token.IsGlued (ts : List Token) (t : Token) : Prop :=
  ∃ u ∈ ts, u.kind.isWordNumber ∧ u.span.stop = t.span.start

instance (ts : List Token) (t : Token) : Decidable (t.IsGlued ts) :=
  inferInstanceAs (Decidable (∃ u ∈ ts, _))

namespace Reference

variable {text : String} {ts : List Token} {t : Token}

theorem endsApart_number {front : List Lexeme} {p : Lexeme} {digits : String}
    (h : Lexing.ofSource cs = .ok y) (hp : p ∈ y.lexemes) (hkind : p.kind = .number digits) :
    EndsApart (sources (front ++ [p])) ↔ p.kind.isWordNumber = false := by
  have hwritten := Lexing.isWritten_of_mem h hp
  rw [hkind] at hwritten
  have htext : p.text = digits.toList := hwritten
  rw [endsApart_sources_concat (Lexing.text_ne_nil h p hp), hkind, htext]
  rfl

/-- An identifier stands as a word unless it is glued to a number. -/
theorem wordAt_iff (h : tokenize text = .ok ts) (ht : t ∈ ts) (hname : t.kind = .ident name) :
    WordAt text name t.span.start ↔ ¬t.IsGlued ts := by
  obtain ⟨y, hy, rfl⟩ := tokenize_eq_ok_iff.1 h
  obtain ⟨front, back, hts⟩ := List.append_of_mem ht
  obtain ⟨as, l, bs, hls, -, rfl, -⟩ := Token.of_place_eq_append_cons hts
  rw [wordAt_after_iff hy hls hname]
  constructor
  · rintro hbefore ⟨u, hu, hword, hstop⟩
    obtain ⟨_, _, hus⟩ := List.append_of_mem hu
    obtain ⟨front, p, more, hls', -, rfl, -⟩ := Token.of_place_eq_append_cons hus
    obtain ⟨digits, hdigits⟩ : ∃ digits, p.kind = .number digits := by
      cases hkind : p.kind with
      | number digits => exact ⟨digits, rfl⟩
      | _ => simp [Token.after, hkind, TokenKind.isWordNumber] at hword
    have htext : sources as ++ l.gap ++ (l.text ++ sources bs) = sources (front ++ [p]) ++ sources more := by
      simpa [Lexeme.source] using congrArg sources (hls.symm.trans hls')
    have hstart : Text.byteLength (sources as ++ l.gap) = Text.byteLength (sources (front ++ [p])) := by
      rw [Lexeme.sources_append, Lexeme.sources_cons, Lexeme.sources_nil, List.append_nil, Lexeme.source,
        ← List.append_assoc]
      exact hstop.symm
    rw [Text.eq_of_append_eq htext hstart, endsApart_number hy (by simp [hls']) hdigits] at hbefore
    exact absurd (hword.symm.trans hbefore) (by decide)
  · intro hglued
    rcases endsApart_before hy hls hname with hbefore | ⟨front, p, digits, rfl, hgap, hp⟩
    · exact hbefore
    · by_contra hbefore
      have hmem : p ∈ y.lexemes := by simp [hls]
      rw [hgap, List.append_nil, endsApart_number hy hmem hp, Bool.not_eq_false] at hbefore
      refine hglued ⟨Token.after front p, ?_, hbefore, ?_⟩
      · rw [hls, List.append_assoc, Token.place_append, Nat.zero_add, List.singleton_append, Token.place_cons]
        exact List.mem_append_right _ List.mem_cons_self
      · simp [Token.after, hgap, Lexeme.source]

/-! ## The two strategies -/

theorem exists_of_mem_ofTokens {previous : Option TokenKind} (h : name ∈ ofTokens previous ts) :
    ∃ t ∈ ts, t.kind = .ident name := by
  fun_induction ofTokens previous ts with
  | case1 => cases h
  | case2 _ t ts _ _ _ _ ih | case4 _ t ts _ _ ih =>
    obtain ⟨u, hu, hname⟩ := ih h
    exact ⟨u, List.mem_cons_of_mem t hu, hname⟩
  | case3 _ t ts _ n hn _ ih =>
    rcases List.mem_cons.1 h with rfl | h
    · refine ⟨t, List.mem_cons_self, ?_⟩
      unfold Token.name? at hn
      split at hn <;> cases hn
      assumption
    · obtain ⟨u, hu, hname⟩ := ih h
      exact ⟨u, List.mem_cons_of_mem t hu, hname⟩

/-- The names kept by the lexical strategy are candidates that the text has a token of. -/
theorem exists_kept (h : tokenize text = .ok ts) (candidates : List String) :
    ∃ kept, referencedNames .lexical text candidates = .ok kept ∧
      ∀ name ∈ kept.keys, name ∈ candidates ∧ ∃ t ∈ ts, t.kind = .ident name := by
  have hused : lexical text = .ok (.ofList (ofTokens none ts)) := by rw [lexical, h]; rfl
  refine ⟨.ofList (candidates.filter (NameSet.ofList (ofTokens none ts)).contains), ?_, ?_⟩
  · rw [referencedNames, hused]
    rfl
  · intro name hname
    obtain ⟨hcandidate, hkept⟩ := List.mem_filter.1 (Index.mem_keys_ofNames.1 hname)
    rw [Index.contains_iff_mem_keys, Index.mem_keys_ofNames] at hkept
    exact ⟨hcandidate, exists_of_mem_ofTokens hkept⟩

/-- What becomes of the names that the lexical strategy keeps when it gives way to the textual one: kept
are those that stand as a word, either where one of their tokens that is not glued to a number stands, or
where the text has no token of theirs, as in a comment. -/
theorem textual_keeps_iff (h : tokenize text = .ok ts) (candidates : List String) :
    ∃ kept found, referencedNames .lexical text candidates = .ok kept ∧
      referencedNames .textual text candidates = .ok found ∧
      (∀ name ∈ kept.keys, name ∈ found.keys ↔
        (∃ t ∈ ts, t.kind = .ident name ∧ ¬t.IsGlued ts) ∨
        ∃ n, WordAt text name n ∧ ∀ t ∈ ts, t.kind = .ident name → t.span.start ≠ n) ∧
      ((∀ t ∈ ts, t.IsGlued ts → t.name? = none) → kept.keys ⊆ found.keys) := by
  obtain ⟨kept, hkept, hcandidates⟩ := exists_kept h candidates
  have hfound (name : String) (hname : name ∈ kept.keys) :
      name ∈ (NameSet.ofList (candidates.filter (mentions text))).keys ↔
        (∃ t ∈ ts, t.kind = .ident name ∧ ¬t.IsGlued ts) ∨
        ∃ n, WordAt text name n ∧ ∀ t ∈ ts, t.kind = .ident name → t.span.start ≠ n := by
    rw [Index.mem_keys_ofNames, List.mem_filter, and_iff_right (hcandidates name hname).1, mentions_iff]
    constructor
    · rintro ⟨n, hn⟩
      by_cases hat : ∃ t ∈ ts, t.kind = .ident name ∧ t.span.start = n
      · obtain ⟨t, ht, hkind, rfl⟩ := hat
        exact .inl ⟨t, ht, hkind, (wordAt_iff h ht hkind).1 hn⟩
      · exact .inr ⟨n, hn, fun t ht hkind hstart => hat ⟨t, ht, hkind, hstart⟩⟩
    · rintro (⟨t, ht, hkind, hglued⟩ | ⟨n, hn, -⟩)
      · exact ⟨_, (wordAt_iff h ht hkind).2 hglued⟩
      · exact ⟨n, hn⟩
  refine ⟨kept, _, hkept, rfl, hfound, fun hfree name hname => ?_⟩
  obtain ⟨-, t, ht, hkind⟩ := hcandidates name hname
  refine (hfound name hname).2 (.inl ⟨t, ht, hkind, fun hglued => ?_⟩)
  have hnone := hfree t ht hglued
  rw [Token.name?, hkind] at hnone
  cases hnone

/-- In `f(1, $)` no name is glued to a number. -/
theorem spacedName_kept :
    ∃ ts, tokenize "f(1, $)" = .ok ts ∧ (∀ t ∈ ts, t.IsGlued ts → t.name? = none) ∧
      ∃ kept found, referencedNames .lexical "f(1, $)" ["$", "f", "g"] = .ok kept ∧
        referencedNames .textual "f(1, $)" ["$", "f", "g"] = .ok found ∧ kept.keys = ["$", "f"] ∧
        kept.keys ⊆ found.keys := by
  have hts : tokenize "f(1, $)" = .ok ((tokenize "f(1, $)").toOption.getD []) := by decide +kernel
  have hfree : ∀ t ∈ (tokenize "f(1, $)").toOption.getD [],
      t.IsGlued ((tokenize "f(1, $)").toOption.getD []) → t.name? = none := by decide +kernel
  obtain ⟨kept, found, hkept, hfound, -, hsubset⟩ := textual_keeps_iff hts ["$", "f", "g"]
  have hkeys : referencedNames .lexical "f(1, $)" ["$", "f", "g"] = .ok (.ofList ["$", "f"]) := by
    decide +kernel
  refine ⟨_, hts, hfree, kept, found, hkept, hfound, ?_, hsubset hfree⟩
  cases hkept.symm.trans hkeys
  decide +kernel

/-- After a closing parenthesis a slash is read as a division, so the `$` of the pattern is an identifier,
which the search for words does not find after the digit. -/
theorem gluedName_missed :
    referencedNames .lexical "class A { run(s) { if (s) /1$/.test(s); } }" ["$"] = .ok (.ofList ["$"]) ∧
    referencedNames .textual "class A { run(s) { if (s) /1$/.test(s); } }" ["$"] = .ok (.ofList []) := by
  decide +kernel

end Reference
end JobBundler
