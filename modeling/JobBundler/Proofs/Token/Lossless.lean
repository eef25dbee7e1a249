import JobBundler.Proofs.Token.Joined
import JobBundler.Proofs.Token.Written

/-!
# Nothing is lost

The tokens of a source and the gaps around them are the whole source, each token written as its kind says
and each gap a gap, and a lexical error spans a part of the source (`tokenize_lossless`).
-/

namespace JobBundler

open Lexeme (sources)

namespace Span

/-- The ends are places of the source between two of its characters, and in order. -/
def Cuts (s : Span) (source : String) : Prop :=
  ∃ before inside after, source.toList = before ++ inside ++ after ∧
    s = ⟨Text.byteLength before, Text.byteLength (before ++ inside)⟩

end Span

namespace Trivia

/-- A gap before which the tokens `front` stand. -/
def IsGapAfter {α : Type} (front : List α) (atEnd : Bool) (cs : List Char) : Prop :=
  match front with
  | [] => IsLeadingGap atEnd cs
  | _ :: _ => IsGap atEnd cs

end Trivia

namespace Token

/-- Where the last one of the tokens ends. -/
def lastStop (ts : List Token) : Nat :=
  (ts.getLast?.map (·.span.stop)).getD 0

/-- The text before `stop` that no token of `front` reaches to. -/
def gapAfter (source : String) (front : List Token) (stop : Nat) : List Char :=
  (Span.slice ⟨lastStop front, stop⟩ source).toList

/-- The tokens are a reading of the source in which none of its text is lost. -/
structure Lossless (source : String) (ts : List Token) : Prop where
  cuts : ∀ t ∈ ts, t.span.Cuts source
  nonempty : ∀ t ∈ ts, t.span.start < t.span.stop
  ordered : ts.Pairwise (·.span.stop ≤ ·.span.start)
  written : ∀ t ∈ ts, t.kind.IsWritten (t.span.slice source).toList
  gaps : ∀ front t back, ts = front ++ t :: back →
    Trivia.IsGapAfter front false (gapAfter source front t.span.start)
  newlines : ∀ front t back, ts = front ++ t :: back →
    t.newlineBefore = (gapAfter source front t.span.start).any Trivia.isLineTerminator
  trailing : Trivia.IsGapAfter ts true (gapAfter source ts (Text.byteLength source.toList))

variable {offset : Nat} {ls : List Lexeme}

theorem lastStop_place (offset : Nat) (ls : List Lexeme) (h : ls ≠ []) :
    lastStop (place offset ls) = offset + Text.byteLength (sources ls) := by
  induction ls generalizing offset with
  | nil => exact absurd rfl h
  | cons l ls ih =>
    cases ls with
    | nil => simp [place, lastStop, Lexeme.source, Nat.add_assoc]
    | cons m ms =>
      have htail := ih (offset + Text.byteLength l.gap + Text.byteLength l.text) (List.cons_ne_nil _ _)
      rw [place, lastStop, place, List.getLast?_cons_cons, ← place, ← lastStop, htail]
      simp [Lexeme.source, Nat.add_assoc]

theorem lastStop_place_zero (ls : List Lexeme) :
    lastStop (place 0 ls) = Text.byteLength (sources ls) := by
  cases ls with
  | nil => rfl
  | cons l ls => rw [lastStop_place 0 _ (List.cons_ne_nil _ _), Nat.zero_add]

theorem pairwise_place (hne : ∀ l ∈ ls, l.text ≠ []) :
    (place offset ls).Pairwise (·.span.stop ≤ ·.span.start) := by
  induction ls generalizing offset with
  | nil => exact .nil
  | cons l ls ih =>
    have hne' : ∀ l ∈ ls, l.text ≠ [] := fun l hl => hne l (List.mem_cons_of_mem _ hl)
    exact .cons (fun t ht => (span_of_mem_place hne' ht).1) (ih hne')

end Token

/-! ## Gaps of lexemes -/

/-- A `#!` line goes on to the end of the line. -/
theorem Lexing.hashbang_of_isPrefix (line : List Char) :
    hashbang (['#', '!'] ++ line) =
      ('#' :: '!' :: line.takeWhile (· ≠ '\n'), line.dropWhile (· ≠ '\n')) := by
  simp [hashbang, List.span_eq_takeWhile_dropWhile]

namespace Trivia

/-- The line at the front of a source and the gap after it are one gap. -/
theorem isLeadingGap_hashbang {cs g rest : List Char} (h : gap (hashbang cs).2 = .ok (g, rest)) :
    IsLeadingGap rest.isEmpty ((hashbang cs).1 ++ g) := by
  by_cases hbang : ['#', '!'] <+: cs
  · obtain ⟨line, rfl⟩ := hbang
    have hline : (line.takeWhile (· ≠ '\n')).all (· ≠ '\n') := List.all_takeWhile
    have hends := List.head?_dropWhile_not (· ≠ '\n') line
    rw [Lexing.hashbang_of_isPrefix] at h ⊢
    dsimp only at h
    refine .hashbang (fun hmem => by simpa using List.all_eq_true.1 hline _ hmem) ?_ (isGap_of_gap h)
    cases hrest : line.dropWhile (· ≠ '\n') with
    | nil =>
      rw [hrest, gap_nil] at h
      cases h
      rfl
    | cons c more =>
      rw [hrest] at h hends
      obtain rfl : c = '\n' := by simpa using hends
      rw [head?_of_gap (by decide) h]
      rfl
  · rw [Lexing.hashbang_of_not_isPrefix hbang] at h ⊢
    exact .plain (isGap_of_gap h)

end Trivia

namespace Lexeme

variable {ctx ctx' : Context} {cs rest : List Char} {l : Lexeme} {ls : List Lexeme}

theorem isGap_of_next (h : next ctx cs = .ok (.lexeme l ctx' rest)) : Trivia.IsGap false l.gap := by
  obtain ⟨c, tl, -, hgap, -⟩ := next_eq_ok h
  exact Trivia.isGap_of_gap hgap

theorem isWritten_of_next (h : next ctx cs = .ok (.lexeme l ctx' rest)) : l.kind.IsWritten l.text := by
  obtain ⟨c, tl, htext, -, hread⟩ := next_eq_ok h
  rw [htext]
  exact isWritten_of_read hread

theorem Reads.isGap_of_mem (h : Reads rest ctx ls ctx') (hl : l ∈ ls) : Trivia.IsGap false l.gap := by
  induction h with
  | nil => cases hl
  | cons head _ ih =>
    rcases List.mem_cons.1 hl with rfl | hl
    · exact isGap_of_next head
    · exact ih hl

theorem Reads.isWritten_of_mem (h : Reads rest ctx ls ctx') (hl : l ∈ ls) :
    l.kind.IsWritten l.text := by
  induction h with
  | nil => cases hl
  | cons head _ ih =>
    rcases List.mem_cons.1 hl with rfl | hl
    · exact isWritten_of_next head
    · exact ih hl

end Lexeme

namespace Lexing

variable {cs : List Char} {y : Lexing} {as bs : List Lexeme} {l : Lexeme}

theorem isWritten_of_mem (h : ofSource cs = .ok y) (hl : l ∈ y.lexemes) : l.kind.IsWritten l.text := by
  obtain ⟨rest, ls, ctx, hreads, hsame⟩ := exists_reads h
  obtain ⟨l', hl', htext, hkind⟩ := hsame l hl
  rw [← htext, ← hkind]
  exact hreads.isWritten_of_mem hl'

/-- The gap before each lexeme of a source, to the first of which a `#!` line belongs. -/
theorem isGapAfter_of_ofSource (h : ofSource cs = .ok y) (hy : y.lexemes = as ++ l :: bs) :
    Trivia.IsGapAfter as false l.gap := by
  cases as with
  | cons a as =>
    obtain ⟨ctx, -, hreads⟩ := reads_of_ofSource h hy (List.cons_ne_nil a as)
    exact hreads.isGap_of_mem List.mem_cons_self
  | nil =>
    obtain ⟨x, hx, rfl, -⟩ := ofSource_eq_ok_iff.1 h
    obtain ⟨first, hls, rfl, -⟩ := exists_of_prepend hy
    obtain ⟨ctx', rest, hnext, -⟩ := Lexeme.next_of_lexemesFrom hx hls
    obtain ⟨c, tl, -, hgap, -⟩ := Lexeme.next_eq_ok hnext
    exact Trivia.isLeadingGap_hashbang hgap

theorem isGapAfter_trailing (h : ofSource cs = .ok y) :
    Trivia.IsGapAfter y.lexemes true y.trailing := by
  obtain ⟨x, hx, rfl, -⟩ := ofSource_eq_ok_iff.1 h
  have hgap := Lexeme.gap_trailing hx
  unfold prepend
  split
  · rename_i hnil
    have hsource := Lexeme.sources_of_lexemesFrom hx
    rw [hnil, Lexeme.sources_nil, List.nil_append] at hsource
    rw [hnil]
    rw [hsource] at hgap ⊢
    exact Trivia.isLeadingGap_hashbang hgap
  · exact Trivia.isGap_of_gap hgap

end Lexing

/-! ## Faults -/

theorem splitAtLastChunk_append {ls before after : List Lexeme}
    (h : splitAtLastChunk ls = some (before, after)) : before ++ after = ls := by
  induction ls generalizing before with
  | nil => cases h
  | cons l ls ih =>
    rw [splitAtLastChunk] at h
    split at h
    · rename_i hls
      cases h
      exact congrArg (l :: ·) (ih hls)
    · cases h
      rfl
    · cases h

theorem openSubstitution_source (y : Lexing) :
    (openSubstitution y).lead ++ (openSubstitution y).text = y.source := by
  unfold openSubstitution
  split
  · rename_i before l ls hsplit
    rw [Lexing.source, ← splitAtLastChunk_append hsplit]
    simp [Lexeme.source]
  · rfl

/-- What a source fails to be read at is a part of it. -/
theorem Lexing.fault_of_ofSource {cs : List Char} {f : Fault} (h : ofSource cs = .error f) :
    f.lead ++ f.text <+: cs := by
  unfold ofSource at h
  have hcs := hashbang_append cs
  rcases hbang : hashbang cs with ⟨bang, rest⟩
  rw [hbang] at h hcs
  dsimp only at h hcs
  subst hcs
  split at h
  · rename_i f' hf
    cases h
    rw [Fault.after, List.append_assoc, List.prefix_append_right_inj]
    exact Lexeme.fault_of_lexemesFrom hf
  · rename_i x hx
    split at h <;> cases h
    rw [openSubstitution_source]
    show sources _ ++ _ <+: _
    rw [prepend_source, Lexeme.sources_of_lexemesFrom hx]

theorem Fault.cuts_of_isPrefix {f : Fault} {source : String} (h : f.lead ++ f.text <+: source.toList) :
    f.toError.span.Cuts source := by
  obtain ⟨after, h⟩ := h
  refine ⟨f.lead, f.text, after, h.symm, ?_⟩
  rw [Text.byteLength_append]
  rfl

/-! ## Tokens of sources -/

namespace Token

variable {source : String} {ls as bs : List Lexeme} {l : Lexeme} {front back : List Token} {t : Token}
  {rest : List Char}

/-- The token of `l` when the lexemes `as` stand before it. -/
def after (as : List Lexeme) (l : Lexeme) : Token where
  kind := l.kind
  span := ⟨Text.byteLength (sources as ++ l.gap), Text.byteLength (sources as ++ l.gap ++ l.text)⟩
  newlineBefore := l.gap.any Trivia.isLineTerminator

theorem place_cons (as : List Lexeme) (l : Lexeme) (ls : List Lexeme) :
    place (Text.byteLength (sources as)) (l :: ls) =
      after as l :: place (Text.byteLength (sources (as ++ [l]))) ls := by
  simp [place, after, Lexeme.source, Nat.add_assoc]

/-- A token with those before and after it is a lexeme with those before and after it. -/
theorem of_place_eq_append_cons (h : place 0 ls = front ++ t :: back) :
    ∃ as l bs, ls = as ++ l :: bs ∧ front = place 0 as ∧ t = after as l ∧
      back = place (Text.byteLength (sources (as ++ [l]))) bs := by
  obtain ⟨as, bs, hls, hfront, hback⟩ := of_place_eq_append h
  cases bs with
  | nil => cases hback
  | cons l bs =>
    rw [Nat.zero_add, place_cons] at hback
    obtain ⟨rfl, rfl⟩ := List.cons.inj hback
    exact ⟨as, l, bs, hls, hfront, rfl, rfl⟩

theorem slice_after (h : source.toList = sources (as ++ l :: bs) ++ rest) :
    (after as l).span.slice source = String.ofList l.text := by
  have hcut : source.toList = sources as ++ l.gap ++ l.text ++ (sources bs ++ rest) := by
    simp [h, Lexeme.source]
  exact Span.slice_eq hcut

theorem cuts_after (h : source.toList = sources (as ++ l :: bs) ++ rest) :
    (after as l).span.Cuts source := by
  refine ⟨_, _, sources bs ++ rest, ?_, rfl⟩
  simp [h, Lexeme.source]

theorem gapAfter_place (h : source.toList = sources (as ++ l :: bs) ++ rest) :
    gapAfter source (place 0 as) (after as l).span.start = l.gap := by
  have hcut : source.toList = sources as ++ l.gap ++ (l.text ++ (sources bs ++ rest)) := by
    simp [h, Lexeme.source]
  rw [gapAfter, lastStop_place_zero, after, Span.slice_eq hcut, String.toList_ofList]

theorem gapAfter_all (h : source.toList = sources ls ++ rest) :
    gapAfter source (place 0 ls) (Text.byteLength source.toList) = rest := by
  have hcut : source.toList = sources ls ++ rest ++ [] := by rw [h, List.append_nil]
  rw [gapAfter, lastStop_place_zero]
  rw [h, Span.slice_eq hcut, String.toList_ofList]

theorem isGapAfter_place {offset : Nat} {atEnd : Bool} {cs : List Char}
    (h : Trivia.IsGapAfter ls atEnd cs) : Trivia.IsGapAfter (place offset ls) atEnd cs := by
  cases ls <;> exact h

theorem lossless_of_ofSource {y : Lexing} (h : Lexing.ofSource source.toList = .ok y) :
    Lossless source (place 0 y.lexemes) := by
  have hne := Lexing.text_ne_nil h
  have htext := (Lexing.source_of_ofSource h).symm
  -- What is said of a single token is said of the lexeme it comes from.
  have hmem {P : Token → Prop} (hP : ∀ as l bs, y.lexemes = as ++ l :: bs → P (after as l)) :
      ∀ t ∈ place 0 y.lexemes, P t := by
    intro t ht
    obtain ⟨front, back, hts⟩ := List.append_of_mem ht
    obtain ⟨as, l, bs, hls, -, rfl, -⟩ := of_place_eq_append_cons hts
    exact hP as l bs hls
  constructor
  case cuts => exact hmem fun as l bs hls => cuts_after (hls ▸ htext)
  case nonempty => exact fun t ht => (span_of_mem_place hne ht).2.1
  case ordered => exact pairwise_place hne
  case written =>
    refine hmem fun as l bs hls => ?_
    rw [slice_after (hls ▸ htext), String.toList_ofList]
    exact Lexing.isWritten_of_mem h (hls ▸ List.mem_append_right as List.mem_cons_self)
  case gaps =>
    intro front t back hts
    obtain ⟨as, l, bs, hls, rfl, rfl, -⟩ := of_place_eq_append_cons hts
    rw [gapAfter_place (hls ▸ htext)]
    exact isGapAfter_place (Lexing.isGapAfter_of_ofSource h hls)
  case newlines =>
    intro front t back hts
    obtain ⟨as, l, bs, hls, rfl, rfl, -⟩ := of_place_eq_append_cons hts
    rw [gapAfter_place (hls ▸ htext)]
    rfl
  case trailing =>
    rw [gapAfter_all htext]
    exact isGapAfter_place (Lexing.isGapAfter_trailing h)

end Token

theorem Token.Lossless.nodup {source : String} {ts : List Token} (h : Lossless source ts) : ts.Nodup := by
  refine h.ordered.imp_of_mem fun {a b} ha _ hle heq => ?_
  have := h.nonempty a ha
  rw [← heq] at hle
  omega

/-- The tokens of a source are a reading of it that loses nothing, and where there is none the error is
about a part of it. -/
theorem tokenize_lossless (source : String) :
    match tokenize source with
    | .ok ts => Token.Lossless source ts
    | .error e => e.span.Cuts source := by
  unfold tokenize
  cases h : Lexing.ofSource source.toList with
  | ok y => exact Token.lossless_of_ofSource h
  | error f => exact Fault.cuts_of_isPrefix (Lexing.fault_of_ofSource h)

end JobBundler
