import JobBundler.Proofs.Outline.Classes
import JobBundler.Proofs.Token.Lossless

/-!
# Spans over tokens

A span that reaches from one token to another (`Span.IsOver`), and spans that stand so one after the other
(`Span.LaidOut`), as what is read of a source does.
-/

namespace JobBundler

variable {c c' : Cursor} {ts us vs : List Token} {t : Token} {s : Span} {ss ss' : List Span}

/-- The tokens stand one after the other, and none of them is empty. -/
structure Token.InOrder (ts : List Token) : Prop where
  pairwise : ts.Pairwise (·.span.stop ≤ ·.span.start)
  nonempty : ∀ t ∈ ts, t.span.start < t.span.stop

theorem Token.InOrder.of_suffix (h : Token.InOrder ts) (hs : us <:+ ts) : Token.InOrder us := by
  constructor
  · exact h.pairwise.sublist hs.sublist
  · intro t ht
    exact h.nonempty t (hs.mem ht)

theorem Token.Lossless.inOrder {source : String} (h : Token.Lossless source ts) : Token.InOrder ts :=
  ⟨h.ordered, h.nonempty⟩

namespace Cursor

/-- The cursor stands after one of the tokens. -/
def IsPast (c : Cursor) (ts : List Token) : Prop :=
  ∃ gs t, ts = gs ++ t :: c.tokens ∧ c.lastStop = t.span.stop

namespace IsPast

theorem suffix (h : c.IsPast ts) : c.tokens <:+ ts := by
  obtain ⟨gs, t, rfl, -⟩ := h
  exact (List.suffix_cons t _).trans (List.suffix_append gs _)

theorem of_suffix (h : c.IsPast us) (hs : us <:+ ts) : c.IsPast ts := by
  obtain ⟨gs, t, rfl, ht⟩ := h
  obtain ⟨front, rfl⟩ := hs
  exact ⟨front ++ gs, t, (List.append_assoc ..).symm, ht⟩

/-- The token before the cursor. -/
theorem exists_mem (h : c.IsPast ts) : ∃ t ∈ ts, c.lastStop = t.span.stop := by
  obtain ⟨gs, t, rfl, ht⟩ := h
  exact ⟨t, List.mem_append_right gs List.mem_cons_self, ht⟩

/-- No token after the cursor starts before it. -/
theorem lastStop_le (h : c.IsPast ts) (hts : Token.InOrder ts) (ht : t ∈ c.tokens) :
    c.lastStop ≤ t.span.start := by
  obtain ⟨gs, last, rfl, hlast⟩ := h
  rw [hlast]
  exact List.rel_of_pairwise_cons (List.pairwise_append.1 hts.pairwise).2.1 ht

/-- Of two cursors among the same tokens, the one before which fewer tokens are left is the later one. -/
theorem lastStop_mono (h : c.IsPast ts) (h' : c'.IsPast ts) (hts : Token.InOrder ts)
    (hs : c'.tokens <:+ c.tokens) : c.lastStop ≤ c'.lastStop := by
  obtain ⟨gs, t, hgs, ht⟩ := h
  obtain ⟨gs', t', hgs', ht'⟩ := h'
  obtain ⟨front, hfront⟩ := hs
  rcases List.eq_nil_or_concat front with rfl | ⟨front, u, rfl⟩
  · -- Both stand after the same token.
    rw [List.nil_append] at hfront
    rw [hgs, hfront] at hgs'
    obtain ⟨-, heq⟩ := List.append_inj' hgs' rfl
    rw [ht, ht', (List.cons.inj heq).1]
  · -- The token before the later cursor is one of those after the other cursor.
    have hsame : (gs ++ t :: front) ++ u :: c'.tokens = gs' ++ t' :: c'.tokens := by
      rw [← hgs', hgs, ← hfront]
      simp
    obtain ⟨-, heq⟩ := List.append_inj' hsame rfl
    obtain rfl := (List.cons.inj heq).1
    have hu : u ∈ c.tokens := by
      rw [← hfront]
      simp
    have hlater := lastStop_le ⟨gs, t, hgs, ht⟩ hts hu
    have hne := hts.nonempty u (by simp [hgs'])
    omega

end IsPast

theorem IsAfterBracket.isPast (h : c.IsAfterBracket ts) : c.IsPast ts := by
  obtain ⟨gs, t, b, hts, -, ht⟩ := h
  exact ⟨gs, t, hts, ht⟩

theorem isPast_past (t : Token) (ts : List Token) : (past t ts).IsPast (t :: ts) :=
  ⟨[], t, rfl, rfl⟩

theorem isPast_of_expectString {expected : Expectation} {value : String}
    (h : c.expectString expected = .ok (value, c')) : c'.IsPast c.tokens := by
  unfold expectString at h
  split at h
  · rename_i hc
    cases h
    rw [advance_of_eq_cons hc, hc]
    apply isPast_past
  · cases h

/-- After a token that may be left out, the cursor is as far as before it. -/
theorem IsPast.skipKind (h : c.IsPast ts) (kind : TokenKind) : (c.skipKind kind).IsPast ts := by
  unfold Cursor.skipKind
  split
  · rename_i hkind
    obtain ⟨t, us, hc, -⟩ := exists_of_atKind hkind
    rw [advance_of_eq_cons hc]
    apply (isPast_past t us).of_suffix
    rw [← hc]
    exact h.suffix
  · exact h

end Cursor

theorem skipGroup_isPast {inner : Nat} (h : skipGroup inner ts = .ok c) : c.IsPast ts :=
  Cursor.IsAfterBracket.isPast (skipGroup_eq_ok h)

/-- The span reaches from one of the tokens `ts` to a later one, in front of the tokens `us`. -/
def Span.IsOver (s : Span) (ts us : List Token) : Prop :=
  ∃ t vs c, t :: vs <:+ ts ∧ Cursor.IsPast c vs ∧ s = ⟨t.span.start, c.lastStop⟩ ∧ us <:+ c.tokens

namespace Span.IsOver

theorem of_suffix (h : s.IsOver us vs) (hs : us <:+ ts) : s.IsOver ts vs := by
  obtain ⟨t, ws, c, hws, h⟩ := h
  exact ⟨t, ws, c, hws.trans hs, h⟩

theorem before (h : s.IsOver ts us) (hs : vs <:+ us) : s.IsOver ts vs := by
  obtain ⟨t, ws, c, hws, hc, hspan, hus⟩ := h
  exact ⟨t, ws, c, hws, hc, hspan, hs.trans hus⟩

theorem exists_start (h : s.IsOver ts us) : ∃ t ∈ ts, s.start = t.span.start := by
  obtain ⟨t, ws, c, hws, -, rfl, -⟩ := h
  exact ⟨t, hws.mem List.mem_cons_self, rfl⟩

theorem exists_stop (h : s.IsOver ts us) : ∃ t ∈ ts, s.stop = t.span.stop := by
  obtain ⟨t, ws, c, hws, hc, rfl, -⟩ := h
  obtain ⟨u, hu, hstop⟩ := hc.exists_mem
  exact ⟨u, hws.mem (List.mem_cons_of_mem t hu), hstop⟩

theorem start_lt_stop (h : s.IsOver ts us) (hts : Token.InOrder ts) : s.start < s.stop := by
  obtain ⟨t, ws, c, hws, hc, rfl, -⟩ := h
  have hts := hts.of_suffix hws
  obtain ⟨u, hu, hstop⟩ := hc.exists_mem
  have hopen := hts.nonempty t List.mem_cons_self
  have hclose := hts.nonempty u (List.mem_cons_of_mem t hu)
  have horder := List.rel_of_pairwise_cons hts.pairwise hu
  dsimp only
  omega

theorem stop_le (h : s.IsOver ts us) (hts : Token.InOrder ts) (ht : t ∈ us) :
    s.stop ≤ t.span.start := by
  obtain ⟨u, ws, c, hws, hc, rfl, hus⟩ := h
  exact (hc.of_suffix (List.suffix_cons u ws)).lastStop_le (hts.of_suffix hws) (hus.mem ht)

theorem start_le (h : s.IsOver (t :: ts) us) (hts : Token.InOrder (t :: ts)) :
    t.span.start ≤ s.start := by
  obtain ⟨u, hu, hstart⟩ := h.exists_start
  rw [hstart]
  rcases List.mem_cons.1 hu with rfl | hu
  · exact Nat.le_refl _
  · have hopen := hts.nonempty t List.mem_cons_self
    have horder := List.rel_of_pairwise_cons hts.pairwise hu
    omega

/-- A span in front of a cursor ends where the cursor stands, or before. -/
theorem stop_le_lastStop (h : s.IsOver ts c.tokens) (hts : Token.InOrder ts) (hc : c.IsPast ts) :
    s.stop ≤ c.lastStop := by
  obtain ⟨u, ws, c₁, hws, hc₁, rfl, hs⟩ := h
  have hpast := hc₁.of_suffix ((List.suffix_cons u ws).trans hws)
  exact hpast.lastStop_mono hc hts hs

end Span.IsOver

/-- The spans reach over stretches of the tokens `ts`, one after the other, in front of the tokens `us`
that end these. -/
inductive Span.LaidOut : List Span → List Token → List Token → Prop
  | nil {ts : List Token} : LaidOut [] ts ts
  | skip {ss : List Span} {t : Token} {ts us : List Token} (h : LaidOut ss ts us) :
    LaidOut ss (t :: ts) us
  | span {ss : List Span} {t : Token} {ts us : List Token} {c : Cursor} (hc : c.IsPast ts)
    (h : LaidOut ss c.tokens us) : LaidOut (⟨t.span.start, c.lastStop⟩ :: ss) (t :: ts) us

namespace Span.LaidOut

theorem append (h : LaidOut ss ts us) (h' : LaidOut ss' us vs) : LaidOut (ss ++ ss') ts vs := by
  induction h with
  | nil => exact h'
  | skip _ ih => exact .skip (ih h')
  | span hc _ ih => exact .span hc (ih h')

theorem of_suffix (h : LaidOut ss us vs) (hs : us <:+ ts) : LaidOut ss ts vs := by
  obtain ⟨front, rfl⟩ := hs
  induction front with
  | nil => exact h
  | cons t front ih => exact .skip ih

theorem before (h : LaidOut ss ts us) (hs : vs <:+ us) : LaidOut ss ts vs := by
  rw [← List.append_nil ss]
  exact h.append (of_suffix .nil hs)

theorem suffix (h : LaidOut ss ts us) : us <:+ ts := by
  induction h with
  | nil => exact List.suffix_rfl
  | @skip _ t _ _ _ ih => exact ih.trans (List.suffix_cons t _)
  | @span _ t _ _ _ hc _ ih => exact (ih.trans hc.suffix).trans (List.suffix_cons t _)

theorem isOver (h : LaidOut ss ts us) (hs : s ∈ ss) : s.IsOver ts us := by
  induction h with
  | nil => cases hs
  | @skip _ t ts _ _ ih => exact (ih hs).of_suffix (List.suffix_cons t ts)
  | @span _ t ts _ c hc h ih =>
    rcases List.mem_cons.1 hs with rfl | hs
    · exact ⟨t, ts, c, List.suffix_rfl, hc, rfl, h.suffix⟩
    · exact (ih hs).of_suffix (hc.suffix.trans (List.suffix_cons t ts))

theorem pairwise (h : LaidOut ss ts us) (hts : Token.InOrder ts) :
    ss.Pairwise (·.stop ≤ ·.start) := by
  induction h with
  | nil => exact .nil
  | @skip _ t ts _ _ ih => exact ih (hts.of_suffix (List.suffix_cons t ts))
  | @span _ t ts _ c hc h ih =>
    have hrest := hts.of_suffix (List.suffix_cons t ts)
    apply List.Pairwise.cons
    · intro s hs
      obtain ⟨u, hu, hstart⟩ := (h.isOver hs).exists_start
      rw [hstart]
      exact hc.lastStop_le hrest hu
    · exact ih (hrest.of_suffix hc.suffix)

end Span.LaidOut

/-! ## Places in the source -/

theorem Span.Cuts.join {source : String} {a b : Span} (ha : a.Cuts source) (hb : b.Cuts source)
    (h : a.start ≤ b.stop) : Span.Cuts ⟨a.start, b.stop⟩ source := by
  obtain ⟨before, inside, after, hsource, rfl⟩ := ha
  obtain ⟨before', inside', after', hsource', rfl⟩ := hb
  rw [List.append_assoc, hsource'] at hsource
  rcases List.append_eq_append_iff.1 hsource with ⟨more, hmore, hrest⟩ | ⟨more, hmore, hrest⟩
  · -- The first span starts no later than the second one stops, so nothing is between.
    dsimp only at h
    rw [hmore, Text.byteLength_append] at h
    obtain rfl : more = [] := by
      cases more with
      | nil => rfl
      | cons c cs =>
        have := c.utf8Size_pos
        simp only [Text.byteLength_cons] at h
        omega
    rw [List.append_nil] at hmore
    exact ⟨before, [], after', by rw [hsource', List.append_nil, hmore], by simp [hmore]⟩
  · exact ⟨before, more, after', by rw [hsource', hmore], by rw [hmore]⟩

theorem Span.Cuts.isSome_slice? {source : String} (h : s.Cuts source) :
    (Text.slice? source.toList s.start s.stop).isSome := by
  obtain ⟨before, inside, after, hsource, rfl⟩ := h
  rw [hsource, Text.slice?_eq_some]
  rfl

theorem Span.IsOver.cuts {source : String} (h : s.IsOver ts us) (hts : Token.Lossless source ts) :
    s.Cuts source := by
  obtain ⟨t, ht, hstart⟩ := h.exists_start
  obtain ⟨u, hu, hstop⟩ := h.exists_stop
  have hpositive := h.start_lt_stop hts.inOrder
  obtain ⟨start, stop⟩ := s
  obtain rfl : start = t.span.start := hstart
  obtain rfl : stop = u.span.stop := hstop
  exact (hts.cuts t ht).join (hts.cuts u hu) hpositive.le

end JobBundler
