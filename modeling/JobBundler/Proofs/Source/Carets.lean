import JobBundler.Proofs.Source.Places
import JobBundler.Proofs.Token.Lossless

/-!
# Carets under a span

The row of carets of a diagnostic is indented by the characters before the span. There are as many carets as the
span has bytes, up to the end of the line, so that there is one for each character of the span on that line only
if these are all of one byte, or if the span goes on to the end of the line (`Source.underlines_iff`).
-/

namespace JobBundler

/-! ## Bytes of characters -/

namespace Text

theorem length_le_byteLength (cs : List Char) : cs.length ≤ byteLength cs := by
  induction cs with
  | nil => exact Nat.le_refl 0
  | cons c cs ih =>
    have hc := c.utf8Size_pos
    rw [List.length_cons, byteLength_cons]
    omega

theorem byteLength_eq_length_iff (cs : List Char) :
    byteLength cs = cs.length ↔ ∀ c ∈ cs, c.utf8Size = 1 := by
  induction cs with
  | nil => simp
  | cons c cs ih =>
    have hc := c.utf8Size_pos
    have hcs := length_le_byteLength cs
    rw [List.forall_mem_cons, ← ih, List.length_cons, byteLength_cons]
    omega

end Text

open Text (byteLength)

namespace Source

/-! ## Characters on the line -/

/-- The spans of characters that stand one after the other, the first one at byte `offset`. -/
def charSpans (offset : Nat) : List Char → List Span
  | [] => []
  | c :: cs => ⟨offset, offset + c.utf8Size⟩ :: charSpans (offset + c.utf8Size) cs

/-- The spans of the characters of the line that is shown with the place of `span`. -/
def shownChars (source : String) (span : Span) : List Span :=
  let place := locate source span
  charSpans ((offsetOf? source place.line 0).getD 0) place.content.toList

/-- Those of the characters shown that belong to `span`. -/
def underlined (source : String) (span : Span) : List Span :=
  (shownChars source span).filter span.encloses

variable {source : String} {span : Span} {offset : Nat} {cs front back lead inside after : List Char}

theorem length_charSpans (offset : Nat) (cs : List Char) : (charSpans offset cs).length = cs.length := by
  induction cs generalizing offset with
  | nil => rfl
  | cons c cs ih => rw [charSpans, List.length_cons, List.length_cons, ih]

theorem charSpans_bounds {s : Span} (h : s ∈ charSpans offset cs) : offset ≤ s.start ∧ s.start < s.stop := by
  induction cs generalizing offset with
  | nil => cases h
  | cons c cs ih =>
    have hc := c.utf8Size_pos
    rcases List.mem_cons.1 h with rfl | h
    · exact ⟨Nat.le_refl _, Nat.lt_add_of_pos_right hc⟩
    · obtain ⟨hstart, hstop⟩ := ih h
      exact ⟨by omega, hstop⟩

theorem take_charSpans (offset n : Nat) (cs : List Char) :
    (charSpans offset cs).take n = charSpans offset (cs.take n) := by
  induction cs generalizing offset n with
  | nil => simp [charSpans]
  | cons c cs ih =>
    cases n with
    | zero => rfl
    | succ n => rw [charSpans, List.take_succ_cons, List.take_succ_cons, ih, charSpans]

/-- The characters that end where `front` ends or before. -/
theorem filter_stop_le (h : cs <+: front ++ back) (offset : Nat) :
    (charSpans offset cs).filter (·.stop ≤ offset + byteLength front) =
      (charSpans offset cs).take front.length := by
  induction front generalizing cs offset with
  | nil =>
    refine List.filter_eq_nil_iff.2 fun s hs hstop => ?_
    have hbounds := charSpans_bounds hs
    have hle := of_decide_eq_true hstop
    rw [Text.byteLength_nil] at hle
    omega
  | cons c front ih =>
    cases cs with
    | nil => rfl
    | cons d cs =>
      obtain ⟨rfl, hcs⟩ := List.cons_prefix_cons.1 h
      have hfits : offset + d.utf8Size ≤ offset + byteLength (d :: front) :=
        Nat.add_le_add_left (Nat.le_add_right _ _) offset
      have hrest := ih hcs (offset + d.utf8Size)
      rw [Nat.add_assoc, ← Text.byteLength_cons] at hrest
      rw [charSpans, List.filter_cons, if_pos (decide_eq_true hfits), hrest, List.length_cons,
        List.take_succ_cons]

/-- The characters that start where `front` ends or after. -/
theorem filter_le_start (h : cs <+: front ++ back) (offset : Nat) :
    (charSpans offset cs).filter (offset + byteLength front ≤ ·.start) =
      (charSpans offset cs).drop front.length := by
  induction front generalizing cs offset with
  | nil => exact List.filter_eq_self.2 fun s hs => decide_eq_true (charSpans_bounds hs).1
  | cons c front ih =>
    cases cs with
    | nil => rfl
    | cons d cs =>
      obtain ⟨rfl, hcs⟩ := List.cons_prefix_cons.1 h
      have hpos := d.utf8Size_pos
      have hout : ¬ offset + byteLength (d :: front) ≤ offset := by
        rw [Text.byteLength_cons]
        omega
      have hrest := ih hcs (offset + d.utf8Size)
      rw [Nat.add_assoc, ← Text.byteLength_cons] at hrest
      rw [charSpans, List.filter_cons, if_neg fun hle => hout (of_decide_eq_true hle), hrest,
        List.length_cons, List.drop_succ_cons]

theorem filter_encloses (h : cs <+: lead ++ inside ++ after) (offset : Nat) :
    (charSpans offset cs).filter
        (Span.encloses ⟨offset + byteLength lead, offset + byteLength (lead ++ inside)⟩) =
      ((charSpans offset cs).drop lead.length).take inside.length := by
  -- By the ends first: they leave a first part of the line, to which the lemma on the starts applies.
  have hlead : cs.take (lead ++ inside).length <+: lead ++ (inside ++ after) := by
    rw [← List.append_assoc]
    exact (List.take_prefix _ _).trans h
  have hboth : (charSpans offset cs).filter
        (Span.encloses ⟨offset + byteLength lead, offset + byteLength (lead ++ inside)⟩) =
      ((charSpans offset cs).filter (·.stop ≤ offset + byteLength (lead ++ inside))).filter
        (offset + byteLength lead ≤ ·.start) := by
    rw [List.filter_filter]
    rfl
  rw [hboth, filter_stop_le h, take_charSpans, filter_le_start hlead, ← take_charSpans, List.drop_take,
    List.length_append, Nat.add_sub_cancel_left]

/-- All of a line is in `front` when it has no more characters than that. -/
theorem forall_stop_le_iff (h : cs <+: front ++ back) (offset : Nat) :
    (∀ s ∈ charSpans offset cs, s.stop ≤ offset + byteLength front) ↔ cs.length ≤ front.length := by
  have hfilter := filter_stop_le h offset
  constructor
  · intro hstop
    rw [List.filter_eq_self.2 fun s hs => decide_eq_true (hstop s hs)] at hfilter
    have hlength := congrArg List.length hfilter
    rw [List.length_take, length_charSpans] at hlength
    omega
  · intro hle s hs
    rw [List.take_of_length_le (by rwa [length_charSpans]), List.filter_eq_self] at hfilter
    exact of_decide_eq_true (hfilter s hs)

/-! ## What is shown of a span -/

/-- The line of a span starts at byte `offset`, has `lead` before the span, and is shown as `content`, while the
text of the span is `inside`. -/
structure Shows (source : String) (span : Span) (offset : Nat) (lead inside content : List Char) : Prop where
  ends : span = ⟨offset + byteLength lead, offset + byteLength (lead ++ inside)⟩
  slice : (span.slice source).toList = inside
  place : (locate source span).column = lead.length ∧ (locate source span).content = String.ofList content
  chars : shownChars source span = charSpans offset content
  goesOn : ∃ after, content <+: lead ++ inside ++ after

theorem Splits.shownChars_eq {above : List (List Char)} (h : Splits source above lead after)
    (hsplit : splitAt source.toList span.start = (joinLines above ++ lead, after)) :
    shownChars source span =
      charSpans (byteLength (joinLines above)) (dropReturns (lead ++ lineRest after)) := by
  have hstart : offsetOf? source (above.length + 1) 0 = some (byteLength (joinLines above)) := by
    refine offsetOf?_eq_some_iff.2 ⟨above, [], lead ++ after, ⟨?_, h.above_plain, nofun⟩, rfl, rfl, ?_⟩
    · rw [h.text, List.append_nil, List.append_assoc]
    · rw [List.append_nil]
  rw [shownChars, h.locate_eq hsplit]
  simp only [hstart, Option.getD_some, String.toList_ofList]

theorem isPrefix_dropReturns (cs : List Char) : dropReturns cs <+: cs := by
  obtain ⟨returns, hcs, -⟩ := exists_dropReturns cs
  exact ⟨_, hcs.symm⟩

theorem exists_shows (h : span.Cuts source) :
    ∃ offset lead inside content, Shows source span offset lead inside content := by
  obtain ⟨before, inside, after, htext, hspan⟩ := h
  have hslice : (span.slice source).toList = inside := by
    rw [hspan, Span.slice_eq htext, String.toList_ofList]
  rw [List.append_assoc] at htext
  obtain ⟨above, lead, rfl, h⟩ := exists_splits htext
  have hsplit : splitAt source.toList span.start = (joinLines above ++ lead, inside ++ after) := by
    rw [hspan]
    exact splitAt_of_splitAtByte? (Text.splitAtByte?_eq_some_iff.2 ⟨htext, rfl⟩)
  refine ⟨byteLength (joinLines above), lead, inside, dropReturns (lead ++ lineRest (inside ++ after)), ?_,
    hslice, ?_, h.shownChars_eq hsplit, after, ?_⟩
  · simp only [hspan, Text.byteLength_append, Nat.add_assoc]
  · rw [h.locate_eq hsplit]
    exact ⟨rfl, rfl⟩
  · rw [List.append_assoc]
    exact (isPrefix_dropReturns _).trans ((List.prefix_append_right_inj lead).2 (List.takeWhile_prefix _))

variable {content : List Char}

theorem Shows.underlined_eq (h : Shows source span offset lead inside content) :
    underlined source span = ((shownChars source span).drop lead.length).take inside.length := by
  obtain ⟨after, hcontent⟩ := h.goesOn
  rw [underlined, h.chars, ← filter_encloses hcontent, ← h.ends]

theorem Shows.length_underlined (h : Shows source span offset lead inside content) :
    (underlined source span).length = min inside.length (content.length - lead.length) := by
  rw [h.underlined_eq, List.length_take, List.length_drop, h.chars, length_charSpans]

theorem Shows.stop_le_iff (h : Shows source span offset lead inside content) :
    (∀ s ∈ shownChars source span, s.stop ≤ span.stop) ↔ content.length - lead.length ≤ inside.length := by
  obtain ⟨after, hcontent⟩ := h.goesOn
  have hstop : span.stop = offset + byteLength (lead ++ inside) := by rw [h.ends]
  rw [h.chars, hstop, forall_stop_le_iff hcontent, List.length_append]
  omega

theorem Shows.length_eq (h : Shows source span offset lead inside content) : span.length = byteLength inside := by
  rw [h.ends, Span.length, Text.byteLength_append, ← Nat.add_assoc, Nat.add_sub_cancel_left]

/-! ## Rows of a diagnostic -/

/-- The last two rows of a diagnostic are the line, behind its number, and the carets. -/
theorem exists_rows (source : String) (span : Span) (message : String) :
    ∃ rows, (diagnostic source span message).toList = rows ++
      '\n' :: (lineLabel (locate source span).line ++ " | " ++ (locate source span).content).toList ++
      '\n' :: ("   | ".toList ++ List.replicate (locate source span).column ' ' ++
        List.replicate (caretCount (locate source span) span.length) '^') := by
  generalize hplace : locate source span = place
  have hfeed : "\n   |\n".toList = "\n   |".toList ++ ['\n'] := rfl
  have hmargin : "\n   | ".toList = '\n' :: "   | ".toList := rfl
  refine ⟨s!"error: {message}\n  --> line {place.line}, column {place.column + 1}\n   |".toList, ?_⟩
  simp only [diagnostic, hplace, toString, String.toList_append, String.toList_ofList, hfeed, hmargin,
    List.append_assoc, List.cons_append, List.nil_append]

/-- The carets stand further to the left than the characters of the line: a row of carets has no number. -/
theorem margin_lt (n : Nat) : "   | ".length < (lineLabel n ++ " | ").length := by
  have hlabel : 3 ≤ (lineLabel n).length := by
    rw [lineLabel, String.length_append, String.length_ofList, List.length_replicate]
    omega
  have hbar : " | ".length = 3 := rfl
  have hmargin : "   | ".length = 5 := rfl
  rw [String.length_append]
  omega

/-! ## Carets and characters -/

/-- There are never too few carets under a span, and too many of them only if it has fewer characters than bytes
and ends before its line does. -/
theorem Shows.caretCount_iff (h : Shows source span offset lead inside content) :
    max 1 (underlined source span).length ≤ caretCount (locate source span) span.length ∧
      (caretCount (locate source span) span.length = max 1 (underlined source span).length ↔
        byteLength inside = inside.length ∨ content.length - lead.length ≤ inside.length) := by
  have hbytes := Text.length_le_byteLength inside
  -- Without this an empty span would count as one with more bytes than characters.
  have hempty : inside.length = 0 → byteLength inside = 0 := fun hzero => by
    rw [List.length_eq_zero_iff.1 hzero, Text.byteLength_nil]
  rw [caretCount, h.place.1, h.place.2, String.length_ofList, h.length_underlined, h.length_eq]
  omega

/-- The row of carets goes as many blanks to the right as there are characters before the span on the line, but
with a narrower margin. It has a caret for each character of the span that is shown, and one if there are none,
exactly if these characters are of one byte each or the span goes on to the end of the line; else it has more. -/
theorem underlines_iff (h : span.Cuts source) (message : String) :
    ∃ rows carets,
      (diagnostic source span message).toList = rows ++
        '\n' :: (lineLabel (locate source span).line ++ " | " ++ (locate source span).content).toList ++
        '\n' :: ("   | ".toList ++ List.replicate (locate source span).column ' ' ++
          List.replicate carets '^') ∧
      "   | ".length < (lineLabel (locate source span).line ++ " | ").length ∧
      underlined source span <+: (shownChars source span).drop (locate source span).column ∧
      max 1 (underlined source span).length ≤ carets ∧
      (carets = max 1 (underlined source span).length ↔
        (∀ c ∈ (span.slice source).toList, c.utf8Size = 1) ∨
          ∀ s ∈ shownChars source span, s.stop ≤ span.stop) := by
  obtain ⟨offset, lead, inside, content, h⟩ := exists_shows h
  obtain ⟨rows, hrows⟩ := exists_rows source span message
  obtain ⟨hle, hiff⟩ := h.caretCount_iff
  refine ⟨rows, _, hrows, margin_lt _, ?_, hle, ?_⟩
  · rw [h.underlined_eq, h.place.1]
    exact List.take_prefix _ _
  · rw [hiff, h.slice, h.stop_le_iff, Text.byteLength_eq_length_iff]

/-- A character of three bytes at the end of its line. -/
theorem lastCharacter_underlined :
    let source := "let p = 5€\n+ 1;"
    let span : Span := ⟨9, 12⟩
    span.Cuts source ∧ underlined source span = [span] ∧
      "\n   |          ^".toList <:+ (diagnostic source span "unexpected character").toList := by
  intro source span
  have hcuts : span.Cuts source :=
    ⟨"let p = 5".toList, "€".toList, "\n+ 1;".toList, by decide +kernel, by decide +kernel⟩
  have hunderlined : underlined source span = [span] := by decide +kernel
  obtain ⟨rows, carets, htext, -, -, -, hiff⟩ := underlines_iff hcuts "unexpected character"
  have hend : ∀ s ∈ shownChars source span, s.stop ≤ span.stop := by decide +kernel
  obtain rfl : carets = 1 := by
    rw [hiff.2 (.inr hend), hunderlined]
    rfl
  have hrow : '\n' :: ("   | ".toList ++ List.replicate (locate source span).column ' ' ++
      List.replicate 1 '^') = "\n   |          ^".toList := by
    decide +kernel
  refine ⟨hcuts, hunderlined, ?_⟩
  rw [htext, hrow]
  exact List.suffix_append _ _

/-- The same character in front of others: it starts no token, and has three carets under it. -/
theorem unexpectedCharacter_carets :
    let source := "let p = 5€ + 1;"
    ∃ e, tokenize source = .error e ∧ e.span.Cuts source ∧ underlined source e.span = [e.span] ∧
      "\n   |          ^^^".toList <:+ (e.diagnostic source).toList := by
  intro source
  refine ⟨⟨.unexpectedChar '€', ⟨9, 12⟩⟩, by decide +kernel, ?_, by decide +kernel, by decide +kernel⟩
  exact ⟨"let p = 5".toList, "€".toList, " + 1;".toList, by decide +kernel, by decide +kernel⟩

end Source
end JobBundler
