import JobBundler.Entry.Import
import JobBundler.Outline.Parser
import JobBundler.Proofs.Token.Escapes

/-!
# Texts between quotes

Every text is the value of some literal, in which line breaks are written by their escapes
(`tokenize_spelled`). Between single quotes only backslashes and quotes are escaped, so a text is read
back from there exactly if it has no line break (`singleQuoted_reads_iff`); the first one ends the literal
before its closing quote.
-/

namespace JobBundler

open Lexeme (OnOneLine Spelling)

namespace Token

/-! ## Every text has a literal -/

/-- A character as it is written in a literal between single quotes when line breaks are escaped too. -/
def spellChar (c : Char) : List Char :=
  if c = '\n' then ['\\', 'n']
  else if c = '\r' then ['\\', 'r']
  else singleQuoted.escapeQuote c

theorem spelling_spellChar (c : Char) : Spelling '\'' c (spellChar c) := by
  unfold spellChar
  split
  · rename_i hc
    subst hc
    exact .escaped (by decide) fun _ => rfl
  split
  · rename_i hc
    subst hc
    exact .escaped (by decide) fun _ => rfl
  · rename_i hn hr
    have hline : OnOneLine [c] := ⟨by simp [Ne.symm hn], by simp [Ne.symm hr]⟩
    exact Lexeme.spelling_escapeQuote hline c List.mem_cons_self

variable {spell : Char → List Char}

/-- A literal of characters that are written so is one token, whose value they are. -/
theorem tokenize_spelling {text : String} (h : ∀ c ∈ text.toList, Spelling '\'' c (spell c)) :
    tokenize (String.ofList ('\'' :: (text.toList.flatMap spell ++ ['\'']))) =
      .ok [⟨.str text,
        ⟨0, Text.byteLength ('\'' :: (text.toList.flatMap spell ++ ['\'']))⟩, false⟩] := by
  have hbody := Lexeme.stringBody_spelling_quote (by decide) h []
  rw [tokenize_literal (.inr rfl) hbody, Lexeme.unescape_spelling h, String.ofList_toList]

theorem tokenize_spelled (text : String) :
    ∃ source ts, tokenize source = .ok ts ∧ ∃ t ∈ ts, t.kind = .str text :=
  ⟨_, _, tokenize_spelling fun c _ => spelling_spellChar c, _, List.mem_cons_self, rfl⟩

/-! ## Texts of several lines -/

/-- A literal that is not closed on its line is no token. -/
theorem tokenize_unclosed {cs body : List Char} (h : Literal.stringBody '\'' cs = (body, none)) :
    tokenize (String.ofList ('\'' :: cs)) =
      .error ⟨.unterminatedString, ⟨0, Text.byteLength ('\'' :: body)⟩⟩ := by
  have hread : Lexeme.read .initial true '\'' cs =
      .error ⟨[], '\'' :: body, .unterminatedString⟩ := by
    show Lexeme.readString .initial '\'' cs = _
    rw [Lexeme.readString, h]
  have hnext : Lexeme.next .initial ('\'' :: cs) =
      .error ⟨[], '\'' :: body, .unterminatedString⟩ := by
    rw [Lexeme.next, Trivia.gap_of_not_isSpace (by decide) (by decide)]
    simp only [List.isEmpty_nil, hread]
    rfl
  have hsource : Lexing.ofSource ('\'' :: cs) =
      .error ⟨[], '\'' :: body, .unterminatedString⟩ := by
    have hbang : hashbang ('\'' :: cs) = ([], '\'' :: cs) := rfl
    rw [Lexing.ofSource, hbang]
    simp only [Lexeme.lexemesFrom_of_error hnext]
    rfl
  rw [tokenize, String.toList_ofList, hsource]
  simp [Fault.toError]

theorem stringBody_lineBreak {c : Char} (hc : c = '\n' ∨ c = '\r') (rest : List Char) :
    Literal.stringBody '\'' (c :: rest) = ([], none) := by
  have hplain : c ≠ '\'' ∧ c ≠ '\\' := by
    rcases hc with rfl | rfl
    · decide
    · decide
  rw [Literal.stringBody, if_neg hplain.1, if_pos hc]
  · rintro cs rfl
    exact absurd rfl hplain.2
  · rintro d cs rfl
    exact absurd rfl hplain.2

/-- A text of several lines is its first line, a line break and what comes after it. -/
theorem exists_firstLine {text : List Char} (h : ¬OnOneLine text) :
    ∃ line c rest, text = line ++ c :: rest ∧ OnOneLine line ∧ (c = '\n' ∨ c = '\r') := by
  induction text with
  | nil => exact absurd ⟨List.not_mem_nil, List.not_mem_nil⟩ h
  | cons a text ih =>
    by_cases ha : a = '\n' ∨ a = '\r'
    · exact ⟨[], a, text, rfl, ⟨List.not_mem_nil, List.not_mem_nil⟩, ha⟩
    · rw [not_or] at ha
      have hcons {line : List Char} (hline : OnOneLine line) : OnOneLine (a :: line) := by
        refine ⟨?_, ?_⟩
        · simp [Ne.symm ha.1, hline.1]
        · simp [Ne.symm ha.2, hline.2]
      obtain ⟨line, c, rest, rfl, hline, hc⟩ := ih (mt hcons h)
      exact ⟨a :: line, c, rest, rfl, hcons hline, hc⟩

/-- The first line break ends a quoted text. -/
theorem tokenize_singleQuoted_of_lines {text : String} {line rest : List Char} {c : Char}
    (htext : text.toList = line ++ c :: rest) (hline : OnOneLine line) (hc : c = '\n' ∨ c = '\r') :
    tokenize (singleQuoted text) = .error ⟨.unterminatedString,
      ⟨0, Text.byteLength ('\'' :: line.flatMap singleQuoted.escapeQuote)⟩⟩ := by
  have hbreak : singleQuoted.escapeQuote c = [c] := by
    rcases hc with rfl | rfl <;> rfl
  have hbody : Literal.stringBody '\'' (text.toList.flatMap singleQuoted.escapeQuote ++ ['\'']) =
      (line.flatMap singleQuoted.escapeQuote, none) := by
    rw [htext, List.flatMap_append, List.flatMap_cons, hbreak, List.append_assoc, List.append_assoc,
      List.singleton_append, Lexeme.stringBody_spelling (Lexeme.spelling_escapeQuote hline),
      stringBody_lineBreak hc]
    simp
  rw [singleQuoted, List.cons_append, tokenize_unclosed hbody]

end Token

open Token

/-- Every text is the value of some literal of some source. Between single quotes it is read as one token
with this value, which spans all of it, exactly if it has no line break; otherwise it is a literal without
its closing quote. -/
theorem singleQuoted_reads_iff (text : String) :
    (∃ source ts, tokenize source = .ok ts ∧ ∃ t ∈ ts, t.kind = .str text) ∧
    (tokenize (singleQuoted text) =
        .ok [⟨.str text, ⟨0, Text.byteLength (singleQuoted text).toList⟩, false⟩] ↔
      OnOneLine text.toList) ∧
    (¬OnOneLine text.toList → ∃ stop,
      tokenize (singleQuoted text) = .error ⟨.unterminatedString, ⟨0, stop⟩⟩) := by
  have hfails (h : ¬OnOneLine text.toList) : ∃ stop,
      tokenize (singleQuoted text) = .error ⟨.unterminatedString, ⟨0, stop⟩⟩ := by
    obtain ⟨line, c, rest, htext, hline, hc⟩ := exists_firstLine h
    exact ⟨_, tokenize_singleQuoted_of_lines htext hline hc⟩
  refine ⟨tokenize_spelled text, ⟨fun h => ?_, fun h => ?_⟩, hfails⟩
  · by_contra hlines
    obtain ⟨stop, herror⟩ := hfails hlines
    rw [herror] at h
    cases h
  · rw [singleQuoted, String.toList_ofList]
    exact tokenize_spelling (Lexeme.spelling_escapeQuote h)

/-- A text of two lines. -/
theorem twoLines_unread :
    ¬OnOneLine "it's\r\nhere".toList ∧ ∃ stop,
      tokenize (singleQuoted "it's\r\nhere") = .error ⟨.unterminatedString, ⟨0, stop⟩⟩ := by
  have hlines : ¬OnOneLine "it's\r\nhere".toList := fun h => h.1 (by decide)
  exact ⟨hlines, (singleQuoted_reads_iff "it's\r\nhere").2.2 hlines⟩

/-- A module specifier and the name of an import with a line break, each written by an escape, and the
line that is written for the import. -/
theorem lineBreaks_written_raw :
    let source := "import \x7b \"a\\nb\" as x \x7d from 'c\\nd';"
    let d : ImportDecl :=
      { specifier := "c\nd", defaultBinding := none, namespaceBinding := none
        named := [⟨"a\nb", "x", false⟩], typeOnly := false, attributes := none, span := ⟨0, 35⟩ }
    tokenize "'c\\nd'" = .ok [⟨.str "c\nd", ⟨0, 6⟩, false⟩] ∧
    tokenize (singleQuoted "c\nd") = .error ⟨.unterminatedString, ⟨0, 2⟩⟩ ∧
    Outline.ofSource source = .ok ⟨[d], []⟩ ∧
    d.reduce (.ofList ["x"]) source ⟨"/a"⟩ ⟨"/b"⟩ = ["import \x7b 'a\nb' as x \x7d from 'c\nd';"] ∧
    tokenize "import \x7b 'a\nb' as x \x7d from 'c\nd';" = .error ⟨.unterminatedString, ⟨9, 11⟩⟩ := by
  decide +kernel

end JobBundler
