import JobBundler.Proofs.Token.Nesting
import JobBundler.Proofs.Token.Printed
import Mathlib.Data.List.TakeDrop

/-!
# Where tokens stand

The tokens of a source are its lexemes one after the other, so that the tokens from one to another one
are those that lie between their ends (`Token.filter_encloses`), and the text between their ends is
that of their lexemes (`Token.slice_stretch`).
-/

namespace JobBundler

open Lexeme (sources)

/-- The text between two places that a text is cut at. -/
theorem Text.slice?_eq_some (before inside after : List Char) :
    Text.slice? (before ++ inside ++ after) (Text.byteLength before)
      (Text.byteLength (before ++ inside)) = some inside := by
  have hle : Text.byteLength before ≤ Text.byteLength (before ++ inside) := by
    rw [Text.byteLength_append]
    exact Nat.le_add_right _ _
  rw [Text.slice?]
  simp only [guard, if_pos hle]
  rw [Text.splitAtByte?_byteLength]
  show (Text.splitAtByte? _ _ >>= fun x => some x.2) = _
  rw [Text.splitAtByte?_byteLength]
  rfl

/-- A text is cut at a byte in one way. -/
theorem Text.eq_of_append_eq {a b c d : List Char} (h : a ++ b = c ++ d)
    (hlength : Text.byteLength a = Text.byteLength c) : a = c := by
  have hcut := Text.splitAtByte?_byteLength a b
  rw [h, hlength, Text.splitAtByte?_byteLength, Option.some.injEq, Prod.mk.injEq] at hcut
  exact hcut.1.symm

theorem Span.slice_eq {source : String} {before inside after : List Char}
    (h : source.toList = before ++ inside ++ after) :
    Span.slice ⟨Text.byteLength before, Text.byteLength (before ++ inside)⟩ source =
      String.ofList inside := by
  rw [slice, h, Text.slice?_eq_some]
  rfl

/-! ## Tokens of lexemes -/

namespace Token

variable {as bs ls : List Lexeme} {l : Lexeme} {offset : Nat}

@[simp] theorem place_nil (offset : Nat) : place offset [] = [] := rfl

theorem place_append (offset : Nat) (as bs : List Lexeme) :
    place offset (as ++ bs) =
      place offset as ++ place (offset + Text.byteLength (sources as)) bs := by
  induction as generalizing offset with
  | nil => rfl
  | cons a as ih =>
    simp only [List.cons_append, place, ih, Lexeme.sources_cons, Lexeme.source,
      Text.byteLength_append, Nat.add_assoc]

theorem length_place (offset : Nat) (ls : List Lexeme) : (place offset ls).length = ls.length := by
  induction ls generalizing offset with
  | nil => rfl
  | cons l ls ih => simp [place, ih]

theorem map_kind_place (offset : Nat) (ls : List Lexeme) :
    (place offset ls).map (·.kind) = ls.map (·.kind) := by
  induction ls generalizing offset with
  | nil => rfl
  | cons l ls ih => simp [place, ih]

theorem of_place_eq_append {ts us : List Token} (h : place offset ls = ts ++ us) :
    ∃ as bs, ls = as ++ bs ∧ ts = place offset as ∧
      us = place (offset + Text.byteLength (sources as)) bs := by
  have hlen := congrArg List.length h
  rw [length_place, List.length_append] at hlen
  refine ⟨ls.take ts.length, ls.drop ts.length, (List.take_append_drop ..).symm, ?_⟩
  rw [← List.take_append_drop ts.length ls, place_append] at h
  obtain ⟨hts, hus⟩ := List.append_inj h (by rw [length_place, List.length_take]; omega)
  exact ⟨hts.symm, hus.symm⟩

theorem byteLength_pos {cs : List Char} (h : cs ≠ []) : 0 < Text.byteLength cs := by
  obtain ⟨c, cs, rfl⟩ := List.exists_cons_of_ne_nil h
  exact Nat.add_pos_left c.utf8Size_pos _

/-- Tokens are not empty, and lie in the text that they are placed in. -/
theorem span_of_mem_place (hne : ∀ l ∈ ls, l.text ≠ []) {t : Token} (h : t ∈ place offset ls) :
    offset ≤ t.span.start ∧ t.span.start < t.span.stop ∧
      t.span.stop ≤ offset + Text.byteLength (sources ls) := by
  induction ls generalizing offset with
  | nil => cases h
  | cons l ls ih =>
    have hpos := byteLength_pos (hne l List.mem_cons_self)
    simp only [Lexeme.sources_cons, Lexeme.source, Text.byteLength_append]
    rcases List.mem_cons.1 h with rfl | h
    · dsimp only
      omega
    · obtain ⟨h₁, h₂, h₃⟩ := ih (fun l hl => hne l (List.mem_cons_of_mem _ hl)) h
      omega

/-- From the start of the token of `m` to the end of the last one of `ms`, when the lexemes `as` stand
before. -/
def stretch (as : List Lexeme) (m : Lexeme) (ms : List Lexeme) : Span :=
  ⟨Text.byteLength (sources as ++ m.gap), Text.byteLength (sources (as ++ m :: ms))⟩

theorem filter_encloses {m : Lexeme} {ms : List Lexeme}
    (hne : ∀ l ∈ as ++ (m :: ms ++ bs), l.text ≠ []) :
    (place 0 (as ++ (m :: ms ++ bs))).filter ((stretch as m ms).encloses ·.span) =
      place (Text.byteLength (sources as)) (m :: ms) := by
  have hnem : ∀ l ∈ m :: ms ++ bs, l.text ≠ [] := fun l hl => hne l (List.mem_append_right _ hl)
  have hpos := byteLength_pos (hnem m List.mem_cons_self)
  have hbefore : (place 0 as).filter ((stretch as m ms).encloses ·.span) = [] := by
    refine List.filter_eq_nil_iff.2 fun t ht => ?_
    have := span_of_mem_place (fun l hl => hne l (List.mem_append_left _ hl)) ht
    simp only [stretch, Span.encloses, Text.byteLength_append, Bool.and_eq_true,
      decide_eq_true_eq]
    omega
  have hinside : (place (Text.byteLength (sources as)) (m :: ms)).filter
      ((stretch as m ms).encloses ·.span) = place (Text.byteLength (sources as)) (m :: ms) := by
    refine List.filter_eq_self.2 fun t ht => ?_
    simp only [stretch, Span.encloses, Text.byteLength_append, Bool.and_eq_true,
      decide_eq_true_eq, Lexeme.sources_append, Lexeme.sources_cons, Lexeme.source]
    rcases List.mem_cons.1 ht with rfl | ht
    · dsimp only
      omega
    · have := span_of_mem_place
        (fun l hl => hnem l (List.mem_append_left _ (List.mem_cons_of_mem _ hl))) ht
      omega
  have hafter : (place (Text.byteLength (sources as) + Text.byteLength (sources (m :: ms))) bs).filter
      ((stretch as m ms).encloses ·.span) = [] := by
    refine List.filter_eq_nil_iff.2 fun t ht => ?_
    have := span_of_mem_place (fun l hl => hnem l (List.mem_append_right _ hl)) ht
    simp only [stretch, Span.encloses, Text.byteLength_append, Bool.and_eq_true,
      decide_eq_true_eq, Lexeme.sources_append, Lexeme.sources_cons] at this ⊢
    omega
  rw [place_append, place_append, List.filter_append, List.filter_append, Nat.zero_add, hbefore,
    hinside, hafter, List.nil_append, List.append_nil]

theorem slice_stretch (as : List Lexeme) (m : Lexeme) (ms : List Lexeme) {source : String}
    {rest : List Char} (h : source.toList = sources (as ++ m :: ms) ++ rest) :
    (stretch as m ms).slice source = String.ofList (m.text ++ sources ms) := by
  have hcut : sources (as ++ m :: ms) = sources as ++ m.gap ++ (m.text ++ sources ms) := by
    simp [Lexeme.source]
  rw [hcut] at h
  rw [stretch, hcut]
  exact Span.slice_eq h

/-- Tokens that stand one after the other are lexemes that do, and reach over their stretch. -/
theorem exists_stretch {front inside back : List Token} {t last : Token}
    (h : place 0 ls = front ++ t :: (inside ++ last :: back)) :
    ∃ as m ms l bs, ls = as ++ (m :: (ms ++ [l]) ++ bs) ∧
      place (Text.byteLength (sources as)) (m :: (ms ++ [l])) = t :: (inside ++ [last]) ∧
      stretch as m (ms ++ [l]) = ⟨t.span.start, last.span.stop⟩ ∧
      m.kind = t.kind ∧ l.kind = last.kind := by
  obtain ⟨as, bs, hls, -, hbs⟩ := of_place_eq_append h
  rcases bs with _ | ⟨m, bs⟩
  · cases hbs
  rw [Nat.zero_add] at hbs
  obtain ⟨rfl, htail⟩ := List.cons.inj hbs
  obtain ⟨ms, bs, rfl, hms, hlast⟩ := of_place_eq_append htail.symm
  rcases bs with _ | ⟨l, bs⟩
  · cases hlast
  obtain ⟨rfl, -⟩ := List.cons.inj hlast
  refine ⟨as, m, ms, l, bs, by simp [hls], ?_, ?_, rfl, rfl⟩
  · rw [place, place_append, ← hms]
    rfl
  · simp [stretch, Lexeme.source, Nat.add_assoc]

end Token

/-! ## The lexemes of a source -/

namespace Lexing

variable {cs : List Char} {x y : Lexing}

theorem hashbang_append (cs : List Char) : (hashbang cs).1 ++ (hashbang cs).2 = cs := by
  unfold hashbang
  split
  · rw [List.span_eq_takeWhile_dropWhile, List.takeWhile_append_dropWhile]
  · rfl

theorem ofSource_eq_ok_iff :
    ofSource cs = .ok y ↔ ∃ x, lexemesFrom .initial (hashbang cs).2 = .ok x ∧
      y = x.prepend (hashbang cs).1 ∧ y.context.substitutions = [] := by
  unfold ofSource
  rcases hashbang cs with ⟨bang, rest⟩
  dsimp only
  rcases lexemesFrom .initial rest with f | x
  · simp
  · simp only [Except.ok.injEq, exists_eq_left', List.isEmpty_iff]
    split
    · rename_i hs
      constructor
      · rintro ⟨⟩; exact ⟨rfl, hs⟩
      · rintro ⟨rfl, -⟩; rfl
    · rename_i hs
      constructor
      · rintro ⟨⟩
      · rintro ⟨rfl, h⟩; exact absurd h hs

theorem context_prepend (front : List Char) (x : Lexing) : (x.prepend front).context = x.context := by
  unfold prepend
  split <;> rfl

/-- What is put before the lexemes belongs to the gap of the first one. -/
theorem exists_of_prepend {front : List Char} {x : Lexing} {m : Lexeme} {ls : List Lexeme}
    (h : (x.prepend front).lexemes = m :: ls) :
    ∃ l, x.lexemes = l :: ls ∧ m = { l with gap := front ++ l.gap } ∧
      (x.prepend front).trailing = x.trailing := by
  unfold prepend at h ⊢
  split at h
  · rename_i hnil
    cases hnil.symm.trans h
  · rename_i l more hls
    obtain ⟨rfl, rfl⟩ := List.cons.inj h
    exact ⟨l, hls, rfl, rfl⟩

theorem prepend_source (front : List Char) (x : Lexing) :
    sources (x.prepend front).lexemes ++ (x.prepend front).trailing =
      front ++ (sources x.lexemes ++ x.trailing) := by
  unfold prepend
  split
  · rename_i h
    rw [h]
    rfl
  · rename_i h
    simp [h, Lexeme.source]

theorem hashbang_of_head? (h : cs.head? ≠ some '#') : hashbang cs = ([], cs) := by
  unfold hashbang
  split
  · exact absurd rfl h
  · rfl

theorem prepend_nil (x : Lexing) : x.prepend [] = x := by
  obtain ⟨ls, trailing, ctx⟩ := x
  cases ls <;> rfl

theorem lexemesFrom_nil (ctx : Context) : lexemesFrom ctx [] = .ok ⟨[], [], ctx⟩ := by
  have hnext : Lexeme.next ctx [] = .ok (.finished []) := by
    rw [Lexeme.next, Trivia.gap]
  exact Lexeme.lexemesFrom_of_finished hnext

/-- A text of lexemes is read as a source unless a substitution stays open. -/
theorem ofSource_sources_iff {ls : List Lexeme} {ctx : Context}
    (h : Lexeme.Reads [] .initial ls ctx) (hcs : (sources ls).head? ≠ some '#') :
    ofSource (sources ls) = .ok y ↔ y = ⟨ls, [], ctx⟩ ∧ ctx.substitutions = [] := by
  have hall := h.lexemesFrom_eq
  rw [List.append_nil, lexemesFrom_nil] at hall
  simp only [List.append_nil] at hall
  rw [ofSource_eq_ok_iff, hashbang_of_head? hcs, hall]
  constructor
  · rintro ⟨x, hx, rfl, hs⟩
    cases hx
    rw [prepend_nil] at hs ⊢
    exact ⟨rfl, hs⟩
  · rintro ⟨rfl, hs⟩
    exact ⟨_, rfl, (prepend_nil _).symm, hs⟩

theorem source_of_ofSource (h : ofSource cs = .ok y) : sources y.lexemes ++ y.trailing = cs := by
  obtain ⟨x, hx, rfl, -⟩ := ofSource_eq_ok_iff.1 h
  rw [prepend_source, Lexeme.sources_of_lexemesFrom hx, hashbang_append]

theorem tokenize_eq {source : String} (h : ofSource source.toList = .ok y) :
    tokenize source = .ok (Token.place 0 y.lexemes) := by
  rw [tokenize, h]

/-- The lexemes of a source are read from some text, but for the gap before the first one. -/
theorem exists_reads (h : ofSource cs = .ok y) :
    ∃ rest ls ctx, Lexeme.Reads rest .initial ls ctx ∧
      ∀ l ∈ y.lexemes, ∃ l' ∈ ls, l'.text = l.text ∧ l'.kind = l.kind := by
  obtain ⟨x, hx, rfl, -⟩ := ofSource_eq_ok_iff.1 h
  have hreads := Lexeme.reads_of_lexemesFrom hx
  refine ⟨_, _, _, hreads, fun l hl => ?_⟩
  unfold prepend at hl
  split at hl
  · exact ⟨l, hl, rfl, rfl⟩
  · rename_i first ls hls
    rw [hls]
    rcases List.mem_cons.1 hl with rfl | hl
    · exact ⟨first, List.mem_cons_self, rfl, rfl⟩
    · exact ⟨l, List.mem_cons_of_mem _ hl, rfl, rfl⟩

theorem text_ne_nil (h : ofSource cs = .ok y) : ∀ l ∈ y.lexemes, l.text ≠ [] := by
  obtain ⟨rest, ls, ctx, hreads, hsame⟩ := exists_reads h
  intro l hl
  obtain ⟨l', hl', htext, -⟩ := hsame l hl
  rw [← htext]
  exact hreads.ne_nil hl'

theorem name_of_mem (h : ofSource cs = .ok y) {l : Lexeme} (hl : l ∈ y.lexemes) {name : String}
    (hname : l.kind = .ident name) : Lexeme.IsName name ∧ l.text = name.toList := by
  obtain ⟨rest, ls, ctx, hreads, hsame⟩ := exists_reads h
  obtain ⟨l', hl', htext, hkind⟩ := hsame l hl
  rw [← htext]
  exact hreads.name_of_mem hl' (hkind.trans hname)

/-- All but the first lexeme of a source, to the front of which a `#!` line belongs, are read from
their texts. -/
theorem reads_of_ofSource (h : ofSource cs = .ok y) {as bs : List Lexeme}
    (hy : y.lexemes = as ++ bs) (has : as ≠ []) :
    ∃ ctx, ctx.Nested ∧ Lexeme.Reads y.trailing ctx bs y.context := by
  obtain ⟨x, hx, rfl, -⟩ := ofSource_eq_ok_iff.1 h
  have hreads := Lexeme.reads_of_lexemesFrom hx
  obtain ⟨a, as, rfl⟩ := List.exists_cons_of_ne_nil has
  rw [List.cons_append] at hy
  obtain ⟨l, hls, -, htrailing⟩ := exists_of_prepend hy
  rw [hls, ← List.cons_append] at hreads
  obtain ⟨ctx, hbefore, hafter⟩ := hreads.of_append
  rw [htrailing, context_prepend]
  exact ⟨ctx, hbefore.nested Context.nested_initial, hafter⟩

/-- A lexeme of a source is read from its text and the text after it, and then those after it are. -/
theorem exists_read (h : ofSource cs = .ok y) {as bs : List Lexeme} {l : Lexeme}
    (hy : y.lexemes = as ++ l :: bs) :
    ∃ ctx ctx' glued c tl, l.text = c :: tl ∧
      Lexeme.read ctx glued c (tl ++ (sources bs ++ y.trailing)) =
        .ok ⟨l.kind, c :: tl, ctx', sources bs ++ y.trailing⟩ ∧
      Lexeme.Reads y.trailing ctx' bs y.context := by
  cases as with
  | cons a as =>
    obtain ⟨ctx, -, hreads⟩ := reads_of_ofSource h hy (List.cons_ne_nil a as)
    cases hreads with
    | cons head tail =>
      obtain ⟨c, tl, htext, -, hread⟩ := Lexeme.next_eq_ok head
      exact ⟨_, _, _, c, tl, htext, hread, tail⟩
  | nil =>
    obtain ⟨x, hx, rfl, -⟩ := ofSource_eq_ok_iff.1 h
    have hreads := Lexeme.reads_of_lexemesFrom hx
    obtain ⟨first, hls, rfl, htrailing⟩ := exists_of_prepend hy
    rw [hls] at hreads
    rw [htrailing, context_prepend]
    cases hreads with
    | cons head tail =>
      obtain ⟨c, tl, htext, -, hread⟩ := Lexeme.next_eq_ok head
      exact ⟨_, _, _, c, tl, htext, hread, tail⟩

end Lexing

end JobBundler
