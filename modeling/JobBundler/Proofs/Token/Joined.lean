import JobBundler.Proofs.Token.Excerpt
import JobBundler.Proofs.Token.Relocation

/-!
# Reading two texts one after the other

A text that starts with a word or the sign of a decorator has the same tokens when it stands on the
lines after another one as by itself (`tokenize_append_line`).
-/

namespace JobBundler

open Lexeme (sources)

variable {as bs : List Char}

/-! ## The gap in between -/

namespace Trivia

/-- A gap that reaches to the end of a text reaches over the end of the line when others follow. -/
theorem gap_append_lineEnd_of_gap {g : List Char} (h : gap as = .ok (g, []))
    (hbs : gap bs = .ok ([], bs)) : gap (as ++ '\n' :: bs) = .ok (g ++ ['\n'], bs) := by
  fun_induction gap as generalizing g with
  | case1 line ih =>
    obtain ⟨g', hg', rfl⟩ := extendGap_eq_ok_iff.1 h
    have hline := List.takeWhile_append_dropWhile (p := (!endsLineComment ·)) (l := line)
    have hall : (line.takeWhile (!endsLineComment ·)).all (!endsLineComment ·) := List.all_takeWhile
    have hends : (line.dropWhile (!endsLineComment ·) ++ '\n' :: bs).head?.all
        (!(!endsLineComment ·) ·) := by
      have hnot := List.head?_dropWhile_not (!endsLineComment ·) line
      cases hd : line.dropWhile (!endsLineComment ·) with
      | nil => rfl
      | cons a rest => simpa [hd] using hnot
    obtain ⟨htake, hdrop⟩ := takeWhile_append_of_all hall hends
    rw [← List.append_assoc, hline] at htake hdrop
    simp only [List.cons_append]
    rw [gap, htake, hdrop, ih hg']
    simp [extendGap]
  | case2 => cases h
  | case3 more body rest hb ih =>
    obtain ⟨g', hg', rfl⟩ := extendGap_eq_ok_iff.1 h
    have hmore := blockComment?_append_of hb (rest ++ '\n' :: bs)
    rw [← List.append_assoc, blockComment?_append hb] at hmore
    simp only [List.cons_append]
    rw [gap_of_blockComment hmore, ih hg']
    simp [extendGap]
  | case4 c' rest _ _ hspace ih =>
    obtain ⟨g', hg', rfl⟩ := extendGap_eq_ok_iff.1 h
    rw [List.cons_append, gap_cons_of_isSpace hspace, ih hg']
    rfl
  | case5 => cases h
  | case6 =>
    cases h
    rw [List.nil_append, gap_cons_of_isSpace (by decide), hbs]
    rfl

theorem gap_append_lineEnd {g cs : List Char} {c : Char} (h : gap as = .ok (g, []))
    (hc : isSpace c = false) (hs : c ≠ '/') :
    gap (as ++ '\n' :: c :: cs) = .ok (g ++ ['\n'], c :: cs) :=
  gap_append_lineEnd_of_gap h (gap_of_not_isSpace hc hs)

end Trivia

namespace Lexeme

variable {ctx ctx' : Context} {l : Lexeme} {cs rest : List Char}

theorem gap_of_finished {gap : List Char} (h : next ctx cs = .ok (.finished gap)) :
    Trivia.gap cs = .ok (gap, []) := by
  unfold next at h
  split at h
  · cases h
  · rename_i hg
    cases h
    exact hg
  · split at h <;> cases h

theorem gap_trailing {x : Lexing} (h : lexemesFrom ctx cs = .ok x) :
    Trivia.gap x.trailing = .ok (x.trailing, []) := by
  fun_induction lexemesFrom ctx cs generalizing x with
  | case1 => cases h
  | case2 ctx cs gap hn =>
    cases h
    have hg := gap_of_finished hn
    rwa [← next_finished hn] at hg
  | case3 => cases h
  | case4 ctx cs l ctx' rest hn x' hx ih =>
    cases h
    exact (ih hx :)

/-- Lexemes and a last gap are a whole text. -/
theorem Reads.lexemesFrom_of_gap {ls : List Lexeme} (h : Reads rest ctx ls ctx')
    (hrest : Trivia.gap rest = .ok (rest, [])) :
    lexemesFrom ctx (sources ls ++ rest) = .ok ⟨ls, rest, ctx'⟩ := by
  have hnext : next ctx' rest = .ok (.finished rest) := by rw [next, hrest]
  rw [h.lexemesFrom_eq, lexemesFrom_of_finished hnext]
  simp

/-- A word or the sign of a decorator is read after the gap at the end of another text and the end of
its last line. -/
theorem next_after_lineEnd (hk : l.kind.Leads) (h : next ctx' cs = .ok (.lexeme l ctx rest))
    {gap : List Char} (hg : Trivia.gap gap = .ok (gap, [])) (base : Context) :
    next base (gap ++ '\n' :: (l.text ++ rest)) = .ok (.lexeme { l with gap := gap ++ ['\n'] }
      { base with regexAllowed := l.kind.allowsRegexAfter } rest) := by
  obtain ⟨c, tl, htext, -, hread⟩ := next_eq_ok h
  obtain ⟨hc, hall⟩ := read_of_leads hk hread
  have hgap : Trivia.gap (gap ++ '\n' :: c :: (tl ++ rest)) =
      .ok (gap ++ ['\n'], c :: (tl ++ rest)) := Trivia.gap_append_lineEnd hg hc.2.2 hc.1
  rw [htext, List.cons_append, next_of_gap hgap (hall base _), after_leads hk]

/-- What is read of a text is read of it before the end of its last line. -/
theorem reads_before_lineEnd {x : Lexing} (h : lexemesFrom ctx cs = .ok x) (bs : List Char) :
    Reads (x.trailing ++ '\n' :: bs) ctx x.lexemes x.context := by
  refine (reads_of_lexemesFrom h).of_sameFront ?_
  have hfront : SameFront (x.trailing ++ []) (x.trailing ++ '\n' :: bs) :=
    SameFront.lineEnd.append x.trailing
  rwa [List.append_nil] at hfront

end Lexeme

/-! ## Whole sources -/

namespace Lexing

theorem hashbang_of_not_isPrefix (h : ¬['#', '!'] <+: as) : hashbang as = ([], as) := by
  unfold hashbang
  split
  · rename_i tail
    exact absurd ⟨tail, rfl⟩ h
  · rfl

theorem hashbang_append_lineEnd (as bs : List Char) :
    hashbang (as ++ '\n' :: bs) = ((hashbang as).1, (hashbang as).2 ++ '\n' :: bs) := by
  have hspan (cs : List Char) : (cs ++ '\n' :: bs).span (· ≠ '\n') =
      ((cs.span (· ≠ '\n')).1, (cs.span (· ≠ '\n')).2 ++ '\n' :: bs) := by
    simp only [List.span_eq_takeWhile_dropWhile]
    induction cs with
    | nil => simp
    | cons c cs ih =>
      by_cases hc : c = '\n'
      · simp [hc]
      · simp_all
  by_cases h : ['#', '!'] <+: as
  · obtain ⟨tail, rfl⟩ := h
    exact hspan _
  · have hboth : ¬['#', '!'] <+: as ++ '\n' :: bs := by
      rcases as with _ | ⟨a, _ | ⟨b, cs⟩⟩
      · simp
      · simp
      · simpa using h
    rw [hashbang_of_not_isPrefix h, hashbang_of_not_isPrefix hboth]

variable {y z : Lexing} {l : Lexeme} {ls : List Lexeme}

/-- The lexemes of a source that starts with a word or the sign of a decorator, when others stand before
it and what is open there stays open. -/
theorem lexemesFrom_after_lineEnd {base : Context} {gap : List Char} (hb : base.Nested)
    (hg : Trivia.gap gap = .ok (gap, [])) (hz : lexemesFrom .initial bs = .ok z)
    (hls : z.lexemes = l :: ls) (hk : l.kind.Leads) (hgap : l.gap = []) :
    lexemesFrom base (gap ++ '\n' :: bs) = .ok
      ⟨{ l with gap := gap ++ ['\n'] } :: ls, z.trailing, base.around z.context⟩ := by
  obtain ⟨ctx, rest, hnext, hrest⟩ := Lexeme.next_of_lexemesFrom hz hls
  obtain ⟨-, rfl, -⟩ := Lexeme.next_of_leads hk hnext
  have hbs : l.text ++ rest = bs := by
    rw [← Lexeme.next_source hnext, Lexeme.source, hgap, List.nil_append]
  rw [← hbs, Lexeme.lexemesFrom_of_next (Lexeme.next_after_lineEnd hk hnext hg base),
    ← Context.around_nil, Lexeme.lexemesFrom_around hb (Context.nested_nil _) hrest]

theorem prepend_append (front cs : List Char) (x : Lexing) (l : Lexeme) (ls : List Lexeme)
    (trailing : List Char) (ctx : Context) :
    prepend front ⟨x.lexemes ++ { l with gap := x.trailing ++ cs } :: ls, trailing, ctx⟩ =
      ⟨(x.prepend front).lexemes ++ { l with gap := (x.prepend front).trailing ++ cs } :: ls,
        trailing, ctx⟩ := by
  obtain ⟨xs, t, c⟩ := x
  cases xs with
  | nil => simp [prepend]
  | cons x xs => rfl

/-- A source that starts with a word or the sign of a decorator is read in the same way on the lines
after another one. -/
theorem ofSource_append_line (hy : ofSource as = .ok y) (hz : ofSource bs = .ok z)
    (hls : z.lexemes = l :: ls) (hk : l.kind.Leads) (hgap : l.gap = []) :
    ∃ ctx, ofSource (as ++ '\n' :: bs) =
      .ok ⟨y.lexemes ++ { l with gap := y.trailing ++ ['\n'] } :: ls, z.trailing, ctx⟩ := by
  obtain ⟨x, hx, rfl, hsubs⟩ := ofSource_eq_ok_iff.1 hy
  obtain ⟨w, hw, rfl, hsubs'⟩ := ofSource_eq_ok_iff.1 hz
  have hbang : (hashbang bs).1 = [] := by
    obtain ⟨first, -, rfl, -⟩ := exists_of_prepend hls
    exact (List.append_eq_nil_iff.1 hgap).1
  have hwhole : (hashbang bs).2 = bs := by
    have := hashbang_append bs
    rwa [hbang] at this
  rw [hbang, prepend_nil] at hls hsubs' ⊢
  rw [hwhole] at hw
  rw [context_prepend] at hsubs
  have hreads := Lexeme.reads_of_lexemesFrom hx
  have hsource := Lexeme.sources_of_lexemesFrom hx
  have hbefore := Lexeme.reads_before_lineEnd hx bs
  have hafter := lexemesFrom_after_lineEnd (hreads.nested Context.nested_initial)
    (Lexeme.gap_trailing hx) hw hls hk hgap
  have hall : lexemesFrom .initial (hashbang (as ++ '\n' :: bs)).2 = .ok
      ⟨x.lexemes ++ { l with gap := x.trailing ++ ['\n'] } :: ls, w.trailing,
        x.context.around w.context⟩ := by
    rw [hashbang_append_lineEnd, ← hsource, List.append_assoc, hbefore.lexemesFrom_eq, hafter]
  refine ⟨x.context.around w.context, ofSource_eq_ok_iff.2 ⟨_, hall, ?_, ?_⟩⟩
  · rw [hashbang_append_lineEnd, prepend_append]
  · simp [Context.around, hsubs, hsubs']

/-- The end of a line after a source belongs to the gap at its end. -/
theorem ofSource_append_lineEnd (hy : ofSource as = .ok y) :
    ofSource (as ++ ['\n']) = .ok { y with trailing := y.trailing ++ ['\n'] } := by
  obtain ⟨x, hx, rfl, hsubs⟩ := ofSource_eq_ok_iff.1 hy
  have hgap : Trivia.gap (x.trailing ++ ['\n']) = .ok (x.trailing ++ ['\n'], []) :=
    Trivia.gap_append_lineEnd_of_gap (Lexeme.gap_trailing hx) Trivia.gap_nil
  have hall : lexemesFrom .initial (hashbang (as ++ ['\n'])).2 = .ok
      ⟨x.lexemes, x.trailing ++ ['\n'], x.context⟩ := by
    rw [hashbang_append_lineEnd, ← Lexeme.sources_of_lexemesFrom hx, List.append_assoc,
      (Lexeme.reads_before_lineEnd hx []).lexemesFrom_of_gap hgap]
  refine ofSource_eq_ok_iff.2 ⟨_, hall, ?_, ?_⟩
  · obtain ⟨ls, trailing, ctx⟩ := x
    rw [hashbang_append_lineEnd]
    cases ls with
    | nil => simp [prepend]
    | cons l ls => rfl
  · rwa [context_prepend] at hsubs ⊢

end Lexing

/-! ## Tokens -/

theorem tokenize_eq_ok_iff {source : String} {ts : List Token} :
    tokenize source = .ok ts ↔
      ∃ y, Lexing.ofSource source.toList = .ok y ∧ ts = Token.place 0 y.lexemes := by
  unfold tokenize
  cases Lexing.ofSource source.toList <;> simp [eq_comm]

variable {a b : String} {ts us : List Token} {u : Token}

/-- The tokens of two sources on lines of their own, of which the second one starts with a word or the
sign of a decorator: those of the first one, and those of the second one further on, where they start a
line. -/
theorem tokenize_append_line (ha : tokenize a = .ok ts) (hb : tokenize b = .ok (u :: us))
    (hu : u.kind.Leads) (hstart : u.span.start = 0) :
    tokenize (a ++ "\n" ++ b) =
      .ok (ts ++ ({ u with newlineBefore := true } :: us).map
        (Token.relocate (.forth (Text.byteLength a.toList + 1)))) := by
  obtain ⟨y, hy, rfl⟩ := tokenize_eq_ok_iff.1 ha
  obtain ⟨z, hz, hzs⟩ := tokenize_eq_ok_iff.1 hb
  obtain ⟨ls, trailing, ctx⟩ := z
  rcases ls with _ | ⟨l, ls⟩
  · cases hzs
  rw [Token.place, List.cons.injEq] at hzs
  obtain ⟨rfl, rfl⟩ := hzs
  have hgap : l.gap = [] := by
    by_contra hne
    have := Token.byteLength_pos hne
    dsimp only at hstart
    omega
  obtain ⟨ctx', hjoined⟩ := Lexing.ofSource_append_line hy hz rfl hu hgap
  have hsource : Lexing.ofSource (a ++ "\n" ++ b).toList =
      .ok ⟨y.lexemes ++ { l with gap := y.trailing ++ ['\n'] } :: ls, trailing, ctx'⟩ := by
    rw [String.toList_append, String.toList_append, List.append_assoc]
    exact hjoined
  have hoffset : 0 + Text.byteLength (sources y.lexemes) + Text.byteLength (y.trailing ++ ['\n']) =
      Text.byteLength a.toList + 1 := by
    have hline : Text.byteLength ['\n'] = 1 := rfl
    rw [← Lexing.source_of_ofSource hy, Text.byteLength_append, Text.byteLength_append, hline]
    omega
  have hlater : Text.byteLength a.toList + 1 + Text.byteLength l.text =
      0 + Text.byteLength l.gap + Text.byteLength l.text + (Text.byteLength a.toList + 1) := by
    rw [hgap, Text.byteLength_nil]
    omega
  have hnewline : (y.trailing ++ ['\n']).any Trivia.isLineTerminator = true := by
    rw [List.any_append]
    exact Bool.or_true _
  rw [Lexing.tokenize_eq hsource, Token.place_append, List.map_cons, ← Token.place_add, ← hlater]
  simp only [Token.place, hoffset, hnewline]
  simp [Token.relocate, Span.relocate, Relocation.forth, hgap, hlater]

end JobBundler
