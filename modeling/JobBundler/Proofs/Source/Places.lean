import JobBundler.Proofs.Token.Placement
import JobBundler.Source.Diagnostic
import Mathlib.Data.List.TakeWhile

/-!
# Places and offsets

A byte offset has a place, its line and column, and a place has an offset (`Source.offsetOf?`). At the
offsets between two characters the two ways are inverse to each other, and the content shown with the place is
its line (`Source.locate_inverts`). Read as slices of the source at byte offsets, which fail where nothing can
be sliced, the search for the place fails for no span.
-/

namespace JobBundler

open Text (byteLength slice? splitAtByte?)

namespace Text

/-- The byte offset of the first `c`. -/
def firstByte? (c : Char) : List Char → Option Nat
  | [] => none
  | d :: cs => if d = c then some 0 else (firstByte? c cs).map (· + d.utf8Size)

/-- The byte offset of the last `c`. -/
def lastByte? (c : Char) : List Char → Option Nat
  | [] => none
  | d :: cs =>
    match lastByte? c cs with
    | some n => some (n + d.utf8Size)
    | none => if d = c then some 0 else none

end Text

namespace Source

/-! ## Places by lines -/

/-- The lines of a source, without their line feeds. -/
def lines (source : String) : List (List Char) :=
  source.toList.splitOn '\n'

/-- Lines one after the other, each with its line feed. -/
def joinLines (ls : List (List Char)) : List Char :=
  ls.flatMap (· ++ ['\n'])

/-- The byte offset of a column of a line, lines counted from one. What stands before it are the lines above,
each with its line feed, and as many characters of the line. -/
def offsetOf? (source : String) : (line column : Nat) → Option Nat
  | 0, _ => none
  | above + 1, column => do
    let text ← (lines source)[above]?
    if column ≤ text.length then
      return byteLength (joinLines ((lines source).take above) ++ text.take column)
    else none

/-! ## Places by slices -/

/-- The place where a span starts, from slices of the source at byte offsets. -/
def locateBySlices? (source : String) (span : Span) : Option Location := do
  let text := source.toList
  let size := byteLength text
  let before := (slice? text 0 (min span.start size)).getD text
  let lineStart := ((Text.lastByte? '\n' before).map (· + 1)).getD 0
  let rest ← slice? text lineStart size
  let lineStop := ((Text.firstByte? '\n' rest).map (lineStart + ·)).getD size
  let lead ← slice? before lineStart (byteLength before)
  let content ← slice? text lineStart lineStop
  return {
    line := before.count '\n' + 1
    column := lead.length
    content := String.ofList (dropReturns content) }

/-- The number nearest to `n` from `low` to `high`, if there are such numbers. -/
def clamp? (n low high : Nat) : Option Nat :=
  if low ≤ high then some (max low (min n high)) else none

end Source

/-! ## Offsets of characters -/

namespace Text

variable {c : Char} {as bs cs : List Char} {n : Nat}

theorem firstByte?_of_notMem (h : c ∉ cs) : firstByte? c cs = none := by
  induction cs with
  | nil => rfl
  | cons d cs ih =>
    rw [List.mem_cons, not_or] at h
    rw [firstByte?, if_neg (Ne.symm h.1), ih h.2, Option.map_none]

theorem firstByte?_append (h : c ∉ as) (bs : List Char) :
    firstByte? c (as ++ c :: bs) = some (byteLength as) := by
  induction as with
  | nil => simp [firstByte?]
  | cons a as ih =>
    rw [List.mem_cons, not_or] at h
    rw [List.cons_append, firstByte?, if_neg (Ne.symm h.1), ih h.2, Option.map_some, byteLength_cons,
      Nat.add_comm]

theorem lastByte?_of_notMem (h : c ∉ cs) : lastByte? c cs = none := by
  induction cs with
  | nil => rfl
  | cons d cs ih =>
    rw [List.mem_cons, not_or] at h
    simp [lastByte?, ih h.2, Ne.symm h.1]

theorem lastByte?_append (as : List Char) (h : c ∉ bs) :
    lastByte? c (as ++ c :: bs) = some (byteLength as) := by
  induction as with
  | nil => simp [lastByte?, lastByte?_of_notMem h]
  | cons a as ih => simp [lastByte?, ih, Nat.add_comm]

/-- A slice from the start is what stands before its end. -/
theorem slice?_zero (cs : List Char) (n : Nat) : slice? cs 0 n = (splitAtByte? cs n).map (·.1) := by
  unfold slice?
  cases splitAtByte? cs n <;> simp [splitAtByte?, guard]

end Text

/-! ## The text before a place -/

namespace Source

/-- Where a place is: the lines above it, the part of its line before it, and what comes after. -/
structure Splits (source : String) (above : List (List Char)) (lead after : List Char) : Prop where
  text : source.toList = joinLines above ++ lead ++ after
  above_plain : ∀ l ∈ above, '\n' ∉ l
  lead_plain : '\n' ∉ lead

/-- The rest of the line. -/
def lineRest (after : List Char) : List Char :=
  after.takeWhile (· ≠ '\n')

variable {source : String} {above ls : List (List Char)} {lead after cs : List Char} {span : Span}

theorem joinLines_append (as bs : List (List Char)) :
    joinLines (as ++ bs) = joinLines as ++ joinLines bs :=
  List.flatMap_append

theorem joinLines_concat (ls : List (List Char)) (l : List Char) :
    joinLines (ls ++ [l]) = joinLines ls ++ l ++ ['\n'] := by
  simp [joinLines]

theorem count_joinLines (h : ∀ l ∈ ls, '\n' ∉ l) : (joinLines ls).count '\n' = ls.length := by
  induction ls with
  | nil => rfl
  | cons l ls ih =>
    have hl : l.count '\n' = 0 := List.count_eq_zero.2 (h l List.mem_cons_self)
    have hrest := ih fun l' hl' => h l' (List.mem_cons_of_mem l hl')
    simp only [joinLines, List.flatMap_cons, List.count_append] at hrest ⊢
    simp [hl, hrest, Nat.add_comm]

/-- Every text is lines with their line feeds, and a last line without one. -/
theorem exists_joinLines (cs : List Char) :
    ∃ above lead, cs = joinLines above ++ lead ∧ (∀ l ∈ above, '\n' ∉ l) ∧ '\n' ∉ lead := by
  induction cs with
  | nil => exact ⟨[], [], rfl, nofun, nofun⟩
  | cons c cs ih =>
    obtain ⟨above, lead, rfl, habove, hlead⟩ := ih
    by_cases hc : c = '\n'
    · subst hc
      refine ⟨[] :: above, lead, rfl, ?_, hlead⟩
      rintro l (_ | ⟨_, hl⟩)
      · exact nofun
      · exact habove l hl
    · cases above with
      | nil =>
        refine ⟨[], c :: lead, rfl, nofun, ?_⟩
        simpa using ⟨Ne.symm hc, hlead⟩
      | cons l above =>
        refine ⟨(c :: l) :: above, lead, rfl, ?_, hlead⟩
        rintro l' (_ | ⟨_, hl'⟩)
        · simpa using ⟨Ne.symm hc, habove l List.mem_cons_self⟩
        · exact habove l' (List.mem_cons_of_mem l hl')

theorem ne_feed_of_plain (h : '\n' ∉ cs) : ∀ ch ∈ cs, decide (ch ≠ '\n') = true :=
  fun _ hch => decide_eq_true fun heq => h (heq ▸ hch)

theorem lineRest_of_plain (h : '\n' ∉ cs) : lineRest cs = cs :=
  List.takeWhile_eq_self_iff.2 (ne_feed_of_plain h)

theorem lineRest_append (h : '\n' ∉ cs) (below : List Char) : lineRest (cs ++ '\n' :: below) = cs := by
  rw [lineRest, List.takeWhile_append_of_pos (ne_feed_of_plain h)]
  simp

theorem lastLine_joinLines (above : List (List Char)) (h : '\n' ∉ lead) :
    lastLine (joinLines above ++ lead) = lead := by
  have hplain : '\n' ∉ lead.reverse := by rwa [List.mem_reverse]
  have hrest : lineRest (joinLines above ++ lead).reverse = lead.reverse := by
    rcases List.eq_nil_or_concat above with rfl | ⟨init, l, rfl⟩
    · exact lineRest_of_plain hplain
    · rw [List.concat_eq_append, joinLines_concat, List.reverse_append, List.reverse_append]
      exact lineRest_append hplain _
  rw [lineRest] at hrest
  rw [lastLine, hrest, List.reverse_reverse]

theorem splitOn_joinLines (h : ∀ l ∈ ls, '\n' ∉ l) (cs : List Char) :
    (joinLines ls ++ cs).splitOn '\n' = ls ++ cs.splitOn '\n' := by
  induction ls with
  | nil => rfl
  | cons l ls ih =>
    have hl : ∀ ch ∈ l, (ch == '\n') = false := fun ch hch =>
      beq_eq_false_iff_ne.2 fun heq => h l List.mem_cons_self (heq ▸ hch)
    have hrest := ih fun l' hl' => h l' (List.mem_cons_of_mem l hl')
    have htext : joinLines (l :: ls) ++ cs = l ++ '\n' :: (joinLines ls ++ cs) := by
      simp [joinLines]
    rw [htext, List.splitOn, List.splitOnP_append_cons_of_forall_mem hl '\n' rfl, List.cons_append,
      ← hrest, List.splitOn]

theorem lineRest_plain (after : List Char) : '\n' ∉ lineRest after :=
  fun h => by simpa using List.mem_takeWhile_imp h

theorem lineRest_cases (after : List Char) :
    after = lineRest after ∨ ∃ below, after = lineRest after ++ '\n' :: below := by
  by_cases h : '\n' ∈ after
  · obtain ⟨rest, below, rfl, hrest⟩ := List.eq_append_cons_of_mem h
    exact .inr ⟨below, by rw [lineRest_append hrest]⟩
  · exact .inl (lineRest_of_plain h).symm

/-- The first line of the rest of a source goes on to the next line feed. -/
theorem exists_splitOn_eq (h : '\n' ∉ lead) (after : List Char) :
    ∃ below, (lead ++ after).splitOn '\n' = (lead ++ lineRest after) :: below := by
  have hplain : '\n' ∉ lead ++ lineRest after := by
    rw [List.mem_append, not_or]
    exact ⟨h, lineRest_plain after⟩
  rcases lineRest_cases after with hafter | ⟨below, hafter⟩
  · refine ⟨[], ?_⟩
    rw [← hafter] at hplain ⊢
    exact List.splitOn_eq_singleton hplain
  · refine ⟨below.splitOn '\n', ?_⟩
    have htext : lead ++ after = joinLines [lead ++ lineRest after] ++ below := by
      simpa [joinLines] using hafter
    rw [htext, splitOn_joinLines (by simpa using hplain), List.singleton_append]

theorem Splits.exists_lines (h : Splits source above lead after) :
    ∃ below, lines source = above ++ (lead ++ lineRest after) :: below := by
  obtain ⟨below, hbelow⟩ := exists_splitOn_eq h.lead_plain after
  refine ⟨below, ?_⟩
  rw [lines, h.text, List.append_assoc, splitOn_joinLines h.above_plain, hbelow]

theorem exists_splits {before : List Char} (h : source.toList = before ++ after) :
    ∃ above lead, before = joinLines above ++ lead ∧ Splits source above lead after := by
  obtain ⟨above, lead, rfl, habove, hlead⟩ := exists_joinLines before
  exact ⟨above, lead, rfl, h, habove, hlead⟩

/-- Any line of the source is a way to split it. -/
theorem exists_splits_of_lines {line : List Char} {below : List (List Char)}
    (h : lines source = above ++ line :: below) : ∃ rest, Splits source above line rest := by
  obtain ⟨all, last, htext, hall, hlast⟩ := exists_joinLines source.toList
  have hlines : lines source = all ++ [last] := by
    rw [lines, htext, splitOn_joinLines hall, List.splitOn_eq_singleton hlast]
  rw [hlines] at h
  rcases List.eq_nil_or_concat below with rfl | ⟨init, l, rfl⟩
  · obtain ⟨rfl, hline⟩ := List.append_inj' h rfl
    obtain rfl := List.singleton_inj.1 hline
    exact ⟨[], by rw [htext, List.append_nil], hall, hlast⟩
  · rw [List.concat_eq_append, ← List.cons_append, ← List.append_assoc] at h
    obtain ⟨rfl, -⟩ := List.append_inj' h rfl
    refine ⟨'\n' :: joinLines init ++ last, ?_, fun l hl => hall l ?_, hall line ?_⟩
    · rw [htext, joinLines_append]
      simp [joinLines]
    · exact List.mem_append_left _ hl
    · simp

/-! ## The place of an offset -/

theorem splitAt_append (cs : List Char) (n : Nat) : (splitAt cs n).1 ++ (splitAt cs n).2 = cs := by
  unfold splitAt
  cases h : splitAtByte? cs (min n (byteLength cs)) with
  | none => exact List.append_nil cs
  | some parts => exact (Text.of_splitAtByte?_eq_some h).1.symm

theorem splitAt_of_splitAtByte? {before : List Char} {n : Nat}
    (h : splitAtByte? cs n = some (before, after)) : splitAt cs n = (before, after) := by
  obtain ⟨rfl, rfl⟩ := Text.of_splitAtByte?_eq_some h
  have hmin : min (byteLength before) (byteLength (before ++ after)) = byteLength before := by
    rw [Text.byteLength_append]
    omega
  rw [splitAt, hmin, h, Option.getD_some]

theorem splitAt_of_byteLength_le {n : Nat} (h : byteLength cs ≤ n) :
    splitAt cs n = splitAt cs (byteLength cs) := by
  rw [splitAt, splitAt, Nat.min_eq_right h, Nat.min_self]

theorem Splits.count_eq (h : Splits source above lead after) :
    (joinLines above ++ lead).count '\n' = above.length := by
  rw [List.count_append, count_joinLines h.above_plain, List.count_eq_zero.2 h.lead_plain, Nat.add_zero]

theorem Splits.locate_eq (h : Splits source above lead after)
    (hsplit : splitAt source.toList span.start = (joinLines above ++ lead, after)) :
    locate source span =
      { line := above.length + 1
        column := lead.length
        content := String.ofList (dropReturns (lead ++ lineRest after)) } := by
  unfold locate
  rw [hsplit]
  dsimp only
  rw [h.count_eq, lastLine_joinLines above h.lead_plain]
  rfl

/-- Only trailing carriage returns are dropped, and all of them. -/
theorem exists_dropReturns (cs : List Char) :
    ∃ returns, cs = dropReturns cs ++ List.replicate returns '\r' ∧
      (dropReturns cs).getLast? ≠ some '\r' := by
  have hcut : cs.reverse.takeWhile (· = '\r') ++ cs.reverse.dropWhile (· = '\r') = cs.reverse :=
    List.takeWhile_append_dropWhile
  have hreturns : cs.reverse.takeWhile (· = '\r') =
      List.replicate (cs.reverse.takeWhile (· = '\r')).length '\r' :=
    List.eq_replicate_iff.2 ⟨rfl, fun ch hch => by simpa using List.mem_takeWhile_imp hch⟩
  refine ⟨(cs.reverse.takeWhile (· = '\r')).length, ?_, ?_⟩
  · rw [hreturns] at hcut
    have htext := congrArg List.reverse hcut
    rw [List.reverse_append, List.reverse_replicate, List.reverse_reverse] at htext
    exact htext.symm
  · intro hlast
    have hhead := List.head?_dropWhile_not (· = '\r') cs.reverse
    rw [dropReturns, List.getLast?_reverse] at hlast
    rw [hlast] at hhead
    simp at hhead

/-! ## The offset of a place -/

theorem offsetOf?_eq_some_iff {line column n : Nat} :
    offsetOf? source line column = some n ↔ ∃ above lead after, Splits source above lead after ∧
      above.length + 1 = line ∧ lead.length = column ∧ byteLength (joinLines above ++ lead) = n := by
  constructor
  · intro h
    cases line with
    | zero => cases h
    | succ line =>
      obtain ⟨text, htext, hoffset⟩ := Option.bind_eq_some_iff.1 h
      split at hoffset
      · rename_i hcolumn
        cases hoffset
        obtain ⟨hlt, hget⟩ := List.getElem?_eq_some_iff.1 htext
        have hlines : lines source = (lines source).take line ++ text :: (lines source).drop (line + 1) := by
          rw [← hget, List.getElem_cons_drop, List.take_append_drop]
        obtain ⟨rest, hrest⟩ := exists_splits_of_lines hlines
        refine ⟨_, text.take column, text.drop column ++ rest, ⟨?_, hrest.above_plain, ?_⟩, ?_, ?_, rfl⟩
        · rw [hrest.text, List.append_assoc _ _ (text.drop column ++ rest), ← List.append_assoc (text.take column),
            List.take_append_drop, List.append_assoc]
        · exact fun hmem => hrest.lead_plain (List.mem_of_mem_take hmem)
        · rw [List.length_take_of_le hlt.le]
        · exact List.length_take_of_le hcolumn
      · cases hoffset
  · rintro ⟨above, lead, after, h, rfl, rfl, rfl⟩
    obtain ⟨below, hlines⟩ := h.exists_lines
    have hget : (lines source)[above.length]? = some (lead ++ lineRest after) := by simp [hlines]
    have htake : (lines source).take above.length = above := by simp [hlines]
    simp [offsetOf?, hget, htake]

/-! ## Slices -/

theorem lastByte?_joinLines (above : List (List Char)) (h : '\n' ∉ lead) :
    ((Text.lastByte? '\n' (joinLines above ++ lead)).map (· + 1)).getD 0 = byteLength (joinLines above) := by
  rcases List.eq_nil_or_concat above with rfl | ⟨init, l, rfl⟩
  · simp [joinLines, Text.lastByte?_of_notMem h]
  · have hfeed : Char.utf8Size '\n' = 1 := rfl
    rw [List.concat_eq_append, joinLines_concat, List.append_assoc, List.singleton_append,
      Text.lastByte?_append _ h]
    simp [hfeed, Nat.add_assoc]

theorem firstByte?_lineRest (h : '\n' ∉ lead) (start : Nat) (after : List Char) :
    ((Text.firstByte? '\n' (lead ++ after)).map (start + ·)).getD (start + byteLength (lead ++ after)) =
      start + byteLength (lead ++ lineRest after) := by
  have hplain : '\n' ∉ lead ++ lineRest after := by
    rw [List.mem_append, not_or]
    exact ⟨h, lineRest_plain after⟩
  rcases lineRest_cases after with hafter | ⟨below, hafter⟩
  · rw [← hafter] at hplain ⊢
    rw [Text.firstByte?_of_notMem hplain]
    rfl
  · have htext : lead ++ after = (lead ++ lineRest after) ++ '\n' :: below := by simpa using hafter
    rw [htext, Text.firstByte?_append hplain]
    rfl

theorem locateBySlices?_eq (source : String) (span : Span) :
    locateBySlices? source span = some (locate source span) := by
  obtain ⟨above, lead, hbefore, h⟩ := exists_splits (splitAt_append source.toList span.start).symm
  generalize hafter : (splitAt source.toList span.start).2 = after at h
  have hsplit : splitAt source.toList span.start = (joinLines above ++ lead, after) :=
    Prod.ext hbefore hafter
  have htext : source.toList =
      joinLines above ++ (lead ++ lineRest after) ++ after.dropWhile (· ≠ '\n') := by
    have hcut : lineRest after ++ after.dropWhile (· ≠ '\n') = after := List.takeWhile_append_dropWhile
    simp only [h.text, List.append_assoc, hcut]
  have hsize : byteLength source.toList = byteLength (joinLines above) + byteLength (lead ++ after) := by
    rw [h.text, List.append_assoc, Text.byteLength_append]
  have hfirst : (slice? source.toList 0 (min span.start (byteLength source.toList))).getD source.toList =
      joinLines above ++ lead := by
    rw [← hbefore, Text.slice?_zero, splitAt]
    cases splitAtByte? source.toList (min span.start (byteLength source.toList)) <;> rfl
  have hrest : slice? source.toList (byteLength (joinLines above)) (byteLength source.toList) =
      some (lead ++ after) := by
    simpa [h.text] using Text.slice?_eq_some (joinLines above) (lead ++ after) []
  have hlead : slice? (joinLines above ++ lead) (byteLength (joinLines above))
      (byteLength (joinLines above ++ lead)) = some lead := by
    simpa using Text.slice?_eq_some (joinLines above) lead []
  have hstop : ((Text.firstByte? '\n' (lead ++ after)).map (byteLength (joinLines above) + ·)).getD
      (byteLength source.toList) = byteLength (joinLines above) + byteLength (lead ++ lineRest after) := by
    rw [hsize, firstByte?_lineRest h.lead_plain]
  have hline : slice? source.toList (byteLength (joinLines above))
      (byteLength (joinLines above) + byteLength (lead ++ lineRest after)) =
        some (lead ++ lineRest after) := by
    rw [htext, ← Text.byteLength_append, Text.slice?_eq_some]
  unfold locateBySlices?
  simp only [hfirst, lastByte?_joinLines above h.lead_plain, hrest, hlead, hstop, hline, h.count_eq,
    h.locate_eq hsplit, Option.bind_eq_bind, Option.bind_some]
  rfl

theorem clamp?_caretCount (place : Location) (length : Nat) :
    clamp? length 1 (max (place.content.length - place.column) 1) = some (caretCount place length) := by
  rw [clamp?, if_pos (Nat.le_max_right _ _), caretCount, Nat.max_comm (place.content.length - _)]

/-! ## Places and offsets -/

theorem Splits.offsetOf?_eq_iff (h : Splits source above lead after) {line column : Nat} :
    offsetOf? source line column = some (byteLength (joinLines above ++ lead)) ↔
      above.length + 1 = line ∧ lead.length = column := by
  rw [offsetOf?_eq_some_iff]
  constructor
  · rintro ⟨above', lead', after', h', rfl, rfl, hlength⟩
    have htext : joinLines above' ++ lead' ++ after' = joinLines above ++ lead ++ after := by
      rw [← h'.text, h.text]
    have hbefore : joinLines above' ++ lead' = joinLines above ++ lead :=
      Text.eq_of_append_eq htext hlength
    have habove : above'.length = above.length := by rw [← h'.count_eq, hbefore, h.count_eq]
    have hlead : lead' = lead := by
      rw [← lastLine_joinLines above' h'.lead_plain, hbefore, lastLine_joinLines above h.lead_plain]
    exact ⟨by rw [habove], by rw [hlead]⟩
  · rintro ⟨rfl, rfl⟩
    exact ⟨above, lead, after, h, rfl, rfl, rfl⟩

/-- At an offset between two characters, the place is the one that has this offset: it has as many line feeds
before it as there are lines above, and its content is its line but for carriage returns at the end. An offset
past the end counts as the end. For every span, no slice fails and no bounds of the carets are out of order. -/
theorem locate_inverts (source : String) (span : Span) :
    (∀ before after, splitAtByte? source.toList span.start = some (before, after) →
      before.count '\n' + 1 = (locate source span).line ∧
      (∀ line column, offsetOf? source line column = some span.start ↔
        (locate source span).line = line ∧ (locate source span).column = column) ∧
      ∃ returns, (lines source)[(locate source span).line - 1]? =
          some ((locate source span).content.toList ++ List.replicate returns '\r') ∧
        (locate source span).content.toList.getLast? ≠ some '\r') ∧
    (byteLength source.toList ≤ span.start →
      locate source span = locate source ⟨byteLength source.toList, span.stop⟩) ∧
    locateBySlices? source span = some (locate source span) ∧
    clamp? span.length 1 (max ((locate source span).content.length - (locate source span).column) 1) =
      some (caretCount (locate source span) span.length) := by
  refine ⟨fun before after hcut => ?_, fun hend => ?_, locateBySlices?_eq source span, clamp?_caretCount _ _⟩
  · obtain ⟨htext, hstart⟩ := Text.splitAtByte?_eq_some_iff.1 hcut
    obtain ⟨above, lead, rfl, h⟩ := exists_splits htext
    obtain ⟨returns, hreturns, hlast⟩ := exists_dropReturns (lead ++ lineRest after)
    obtain ⟨below, hlines⟩ := h.exists_lines
    rw [h.locate_eq (splitAt_of_splitAtByte? hcut)]
    refine ⟨by rw [h.count_eq], fun line column => hstart ▸ h.offsetOf?_eq_iff, returns, ?_, ?_⟩
    · simpa [hlines] using hreturns
    · simpa using hlast
  · unfold locate
    rw [splitAt_of_byteLength_le hend]

/-- A place behind a character of two bytes, on a line that ends in a carriage return, and one past the end. -/
theorem secondLine_located :
    let source := "let a;\r\n\té = 1;\r\n"
    let span : Span := ⟨11, 12⟩
    splitAtByte? source.toList span.start = some ("let a;\r\n\té".toList, " = 1;\r\n".toList) ∧
      locate source span = ⟨2, 2, "\té = 1;"⟩ ∧ offsetOf? source 2 2 = some span.start ∧
      locate source ⟨40, 41⟩ = locate source ⟨byteLength source.toList, 41⟩ := by
  intro source span
  have hcut : splitAtByte? source.toList span.start =
      some ("let a;\r\n\té".toList, " = 1;\r\n".toList) := by
    decide +kernel
  have hplace : locate source span = ⟨2, 2, "\té = 1;"⟩ := by decide +kernel
  obtain ⟨-, hoffset, -⟩ := (locate_inverts source span).1 _ _ hcut
  obtain ⟨-, hend, -⟩ := locate_inverts source ⟨40, 41⟩
  refine ⟨hcut, hplace, (hoffset 2 2).2 ?_, hend (by decide +kernel)⟩
  rw [hplace]
  exact ⟨rfl, rfl⟩

end Source
end JobBundler
