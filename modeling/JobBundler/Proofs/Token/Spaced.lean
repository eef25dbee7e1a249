import JobBundler.Proofs.Token.Lossless

/-!
# A space between two tokens

A space put between two tokens of a source, next to one of them, leaves the tokens as they are, those
behind it one byte further on (`tokenize_spaced`). Only a `!` may be read in another way behind a space,
because the one that is glued to an operand ends it.
-/

namespace JobBundler

open Lexeme (sources)

variable {as bs cs rest text : List Char}

/-! ## Punctuators -/

/-- A word without a space that stands where a text goes on with a space stands before the space. -/
theorem prefix_of_prefix_space {p : List Char} (hp : ' ' ∉ p) (h : p <+: as ++ ' ' :: bs) :
    p <+: as := by
  rcases List.prefix_or_prefix_of_prefix h (List.prefix_append as (' ' :: bs)) with hle | ⟨r, rfl⟩
  · exact hle
  · cases r with
    | nil => rw [List.append_nil]
    | cons c r =>
      obtain ⟨rfl, -⟩ := List.cons_prefix_cons.1 ((List.prefix_append_right_inj as).1 h)
      exact absurd (List.mem_append_right as List.mem_cons_self) hp

/-- A text with a space somewhere starts in the same way, or with the space. -/
theorem sameHeadOrBlank_spaced (as bs : List Char) : SameHeadOrBlank (as ++ bs) (as ++ ' ' :: bs) := by
  cases as with
  | nil => exact .inr (.inr rfl)
  | cons a as => exact .inl rfl

namespace Punctuator

theorem startsWith_append (p : String) (rest : List Char) :
    startsWith (p.toList ++ rest) p = !(p == "?." && rest.head?.any Char.isDigit) := by
  have hprefix : p.toList.isPrefixOf (p.toList ++ rest) :=
    List.isPrefixOf_iff_prefix.2 (List.prefix_append _ _)
  rw [startsWith, hprefix, Bool.true_and]
  by_cases hq : p = "?."
  · subst hq
    rfl
  · rw [beq_eq_false_iff_ne.2 hq, Bool.false_and, Bool.false_and]

theorem front?_eq_some_iff :
    front? cs = some text ↔ (∃ p, long.find? (startsWith cs) = some p ∧ p.toList = text) ∨
      long.find? (startsWith cs) = none ∧ ∃ c, cs.head? = some c ∧ short.contains c ∧ text = [c] := by
  unfold front?
  cases long.find? (startsWith cs) with
  | some p => simp
  | none =>
    cases cs with
    | nil => simp
    | cons c cs => simp [eq_comm]

/-- An optional chain is no punctuator before a digit. -/
theorem head?_of_optionalChain (h : front? ('?' :: '.' :: rest) = some ['?', '.']) :
    rest.head?.any Char.isDigit = false := by
  rcases front?_eq_some_iff.1 h with ⟨p, hp, hchars⟩ | ⟨-, c, -, -, hc⟩
  · obtain rfl : p = "?." := String.toList_inj.1 hchars
    have hstarts : startsWith ("?.".toList ++ rest) "?." := List.find?_some hp
    rw [startsWith_append] at hstarts
    simpa using hstarts
  · cases hc

/-- What starts with a long punctuator when a space stands in it starts with it without the space, unless
this puts an optional chain before a digit. -/
theorem startsWith_of_spaced {p : String} (hp : p ∈ long)
    (hdigit : as = ['?', '.'] → bs.head?.any Char.isDigit = false)
    (h : startsWith (as ++ ' ' :: bs) p) : startsWith (as ++ bs) p := by
  have hspace : ∀ p ∈ long, ' ' ∉ p.toList := by decide
  have hfront : p.toList <+: as ++ ' ' :: bs := by
    rw [startsWith, Bool.and_eq_true, List.isPrefixOf_iff_prefix] at h
    exact h.1
  obtain ⟨r, rfl⟩ := prefix_of_prefix_space (hspace p hp) hfront
  rw [List.append_assoc, startsWith_append, Bool.not_eq_true', Bool.and_eq_false_iff] at h ⊢
  rw [or_iff_not_imp_left, Bool.not_eq_false, beq_iff_eq] at h ⊢
  rintro rfl
  cases r with
  | nil => exact hdigit rfl
  | cons c r => exact h rfl

/-- A punctuator is the same one when a space stands anywhere after it, unless it is a question mark and
the space stands between a point and a digit. -/
theorem front?_spaced (h : front? (text ++ (as ++ bs)) = some text)
    (hdigit : text = ['?'] → as = ['.'] → bs.head?.any Char.isDigit = false) :
    front? (text ++ (as ++ ' ' :: bs)) = some text := by
  have hne := front?_ne_nil h
  have hchain : text ++ as = ['?', '.'] → bs.head?.any Char.isDigit = false := by
    intro heq
    rcases text with _ | ⟨a, _ | ⟨b, text⟩⟩
    · exact absurd rfl hne
    · cases heq
      exact hdigit rfl rfl
    · rw [List.cons_append, List.cons_append, List.cons.injEq, List.cons.injEq,
        List.append_eq_nil_iff] at heq
      obtain ⟨rfl, rfl, rfl, rfl⟩ := heq
      exact head?_of_optionalChain h
  have hstarts : ∀ p ∈ long, startsWith (text ++ (as ++ ' ' :: bs)) p →
      startsWith (text ++ (as ++ bs)) p := by
    intro p hp
    rw [← List.append_assoc, ← List.append_assoc]
    exact startsWith_of_spaced hp hchain
  rcases front?_eq_some_iff.1 h with ⟨p, hfind, rfl⟩ | ⟨hnone, c, hhead, hshort, rfl⟩
  · obtain ⟨hp, before, after, hlong, hbefore⟩ := List.find?_eq_some_iff_append.1 hfind
    have hbefore' : ∀ q ∈ before, (!startsWith (p.toList ++ (as ++ ' ' :: bs)) q) = true := by
      intro q hq
      have hnot := hbefore q hq
      have hq' : q ∈ long := hlong ▸ List.mem_append_left _ hq
      rw [Bool.not_eq_true'] at hnot ⊢
      exact Bool.eq_false_iff.2 fun h => Bool.eq_false_iff.1 hnot (hstarts q hq' h)
    have hp' : startsWith (p.toList ++ (as ++ ' ' :: bs)) p := by
      rw [startsWith_append, Bool.not_eq_true', Bool.and_eq_false_iff] at hp ⊢
      exact hp.imp_right ((sameHeadOrBlank_spaced as bs).any_eq_false rfl rfl)
    have hfind' := List.find?_eq_some_iff_append.2 ⟨hp', before, after, hlong, hbefore'⟩
    exact front?_eq_some_iff.2 (.inl ⟨p, hfind', rfl⟩)
  · have hnone' : long.find? (startsWith ([c] ++ (as ++ ' ' :: bs))) = none := by
      rw [List.find?_eq_none] at hnone ⊢
      exact fun p hp h => hnone p hp (hstarts p hp h)
    exact front?_eq_some_iff.2 (.inr ⟨hnone', c, rfl, hshort, rfl⟩)

end Punctuator

/-! ## Gaps -/

namespace Trivia

/-- A space at either end of a gap belongs to it. -/
theorem gap_spaced {g₁ g₂ : List Char} {c : Char}
    (h : gap (g₁ ++ (g₂ ++ c :: cs)) = .ok (g₁ ++ g₂, c :: cs)) (hg : g₁ = [] ∨ g₂ = []) :
    gap (g₁ ++ ' ' :: (g₂ ++ c :: cs)) = .ok (g₁ ++ ' ' :: g₂, c :: cs) := by
  have hspace : isSpace ' ' := by decide
  rcases hg with rfl | rfl
  · rw [List.nil_append] at h
    rw [List.nil_append, gap_cons_of_isSpace hspace, h]
    rfl
  · obtain ⟨hc, hcomment⟩ := apart_of_gap h
    have hlast : gap (' ' :: c :: cs) = .ok ([' '], c :: cs) := by
      rw [gap_cons_of_isSpace hspace, gap_of_apart hc hcomment]
      rfl
    rw [List.append_nil] at h
    exact gap_append_gap h hlast

theorem ne_point_of_isGap {atEnd : Bool} {g g₁ g₂ : List Char} (h : IsGap atEnd g) (hg : g = g₁ ++ g₂) :
    g₁ ≠ ['.'] := by
  rintro rfl
  subst hg
  cases h with
  | space hc => cases hc

end Trivia

/-! ## Lexemes -/

namespace Lexeme

variable {ctx ctx' : Context} {l m : Lexeme} {ls ms : List Lexeme} {c : Char} {glued : Bool}

/-- A token other than a `!` is read in the same way whether it is glued to the one before or not. -/
theorem read_of_glued {r : Reading} (h : read ctx glued c cs = .ok r) (hr : r.kind ≠ .operator "!")
    (glued' : Bool) : read ctx glued' c cs = .ok r := by
  have hpunctuator (h : readPunctuator ctx glued c cs = .ok r) :
      readPunctuator ctx glued' c cs = .ok r := by
    unfold readPunctuator at h ⊢
    split at h
    · cases h
    · simp only [Except.ok.injEq] at h
      subst h
      dsimp only at hr ⊢
      rw [Context.after_of_ne hr, Context.after_of_ne hr]
  unfold read at h ⊢
  split_ifs at h ⊢
  case neg => exact hpunctuator h
  -- No other kind of token takes note of what it is glued to.
  all_goals exact h

/-- A point alone does not stand before a digit. -/
theorem head?_of_point (h : next ctx (l.source ++ rest) = .ok (.lexeme l ctx' rest))
    (hl : l.text = ['.']) : rest.head?.any Char.isDigit = false := by
  obtain ⟨c, tl, htext, -, hread⟩ := next_eq_ok h
  obtain ⟨rfl, rfl⟩ := List.cons.inj (htext.symm.trans hl)
  refine Bool.eq_false_iff.2 fun hdigit => ?_
  have hname : ¬Literal.isNameStart '.' := by decide
  have hnumber : Char.isDigit '.' || ('.' == '.' && ([] ++ rest).head?.any Char.isDigit) := by
    rw [List.nil_append, hdigit]
    rfl
  rw [read, if_neg hname, if_pos hnumber] at hread
  simp only [Except.ok.injEq, Reading.mk.injEq] at hread
  have hsplit : Literal.number (['.'] ++ rest) = (['.'], rest) := Prod.ext hread.2.1 hread.2.2.2
  exact Bool.eq_false_iff.1 (Literal.isDigit_head?_of_numberText hsplit) hdigit

/-- A lexeme before a space. -/
theorem next_before_space (h : next ctx (l.source ++ (as ++ bs)) = .ok (.lexeme l ctx' (as ++ bs)))
    (hdigit : as = ['.'] → bs.head?.any Char.isDigit = false) :
    next ctx (l.source ++ (as ++ ' ' :: bs)) = .ok (.lexeme l ctx' (as ++ ' ' :: bs)) :=
  next_append_of h (sameHeadOrBlank_spaced as bs) fun hfront =>
    Punctuator.front?_spaced hfront fun _ => hdigit

theorem Reads.head?_of_point (h : Reads rest ctx (ls ++ [l]) ctx') (hl : l.text = ['.']) :
    rest.head?.any Char.isDigit = false := by
  obtain ⟨ctx₁, -, hlast⟩ := h.of_append
  cases hlast with
  | cons head tail => exact Lexeme.head?_of_point head hl

/-- The lexemes before a space. -/
theorem Reads.before_space (h : Reads (as ++ bs) ctx (ls ++ [l]) ctx') (has : as ≠ ['.']) :
    Reads (as ++ ' ' :: bs) ctx (ls ++ [l]) ctx' := by
  induction ls generalizing ctx with
  | nil =>
    cases h with
    | cons head tail =>
      cases tail
      exact .cons (next_before_space head (absurd · has)) .nil
  | cons m ls ih =>
    cases h with
    | cons head tail =>
      refine .cons ?_ (ih tail)
      have hdigit : sources (ls ++ [l]) ++ as = ['.'] → bs.head?.any Char.isDigit = false := by
        intro hpoint
        have hne := tail.ne_nil (List.mem_append_right ls List.mem_cons_self)
        rw [sources_append, sources_cons, sources_nil, source] at hpoint
        simp only [List.append_eq_singleton_iff, List.append_eq_nil_iff, hne] at hpoint
        obtain ⟨rfl, hl⟩ : as = [] ∧ l.text = ['.'] := by tauto
        exact tail.head?_of_point hl
      rw [List.append_eq, ← List.append_assoc (sources _)] at head ⊢
      exact next_before_space head hdigit

/-- The lexeme behind a space. -/
theorem next_after_space {g₁ g₂ : List Char} (hgap : m.gap = g₁ ++ g₂) (hg : g₁ = [] ∨ g₂ = [])
    (hm : m.kind ≠ .operator "!") (h : next ctx (m.source ++ rest) = .ok (.lexeme m ctx' rest)) :
    next ctx (g₁ ++ ' ' :: (g₂ ++ (m.text ++ rest))) =
      .ok (.lexeme { m with gap := g₁ ++ ' ' :: g₂ } ctx' rest) := by
  obtain ⟨c, tl, htext, hgaps, hread⟩ := next_eq_ok h
  rw [source, hgap, htext, List.append_assoc, List.append_assoc, List.cons_append] at hgaps
  have hspaced := Trivia.gap_spaced hgaps hg
  have hread' := read_of_glued hread hm (g₁ ++ ' ' :: g₂).isEmpty
  rw [htext, List.cons_append, next_of_gap hspaced hread']

theorem Reads.spaced {g₁ g₂ : List Char} (h : Reads rest ctx (ls ++ [l] ++ m :: ms) ctx')
    (hgap : m.gap = g₁ ++ g₂) (hg : g₁ = [] ∨ g₂ = []) (hm : m.kind ≠ .operator "!") :
    Reads rest ctx (ls ++ [l] ++ { m with gap := g₁ ++ ' ' :: g₂ } :: ms) ctx' := by
  have hpoint : g₁ ≠ ['.'] :=
    Trivia.ne_point_of_isGap (h.isGap_of_mem (List.mem_append_right _ List.mem_cons_self)) hgap
  obtain ⟨ctx₁, hbefore, hafter⟩ := h.of_append
  rw [sources_cons, source, hgap, List.append_assoc, List.append_assoc, List.append_assoc] at hbefore
  cases hafter with
  | cons head tail =>
    have head' := next_after_space hgap hg hm head
    have hafter' : Reads rest ctx₁ ({ m with gap := g₁ ++ ' ' :: g₂ } :: ms) ctx' := by
      refine .cons ?_ tail
      simpa [source] using head'
    refine .append ?_ hafter'
    simpa [source] using hbefore.before_space hpoint

end Lexeme

/-! ## Sources -/

namespace Lexing

variable {x y : Lexing} {l m : Lexeme} {ls ms : List Lexeme} {bang : List Char}

/-- A `#!` line belongs to the first lexeme, so the second one and those after it stay when it is put
before the others. -/
theorem of_prepend (h : (x.prepend bang).lexemes = ls ++ l :: m :: ms) :
    ∃ ls' l', x.lexemes = ls' ++ [l'] ++ m :: ms ∧ bang ++ sources (ls' ++ [l']) = sources (ls ++ [l]) ∧
      ∀ ns trailing ctx, prepend bang ⟨ls' ++ [l'] ++ ns, trailing, ctx⟩ =
        ⟨ls ++ l :: ns, trailing, ctx⟩ := by
  cases ls with
  | nil =>
    obtain ⟨a, has, rfl, -⟩ := exists_of_prepend h
    exact ⟨[], a, has, by simp [Lexeme.source], fun ns trailing ctx => rfl⟩
  | cons b ls =>
    obtain ⟨a, has, rfl, -⟩ := exists_of_prepend h
    exact ⟨a :: ls, l, by simp [has], by simp [Lexeme.source], fun ns trailing ctx => by simp [prepend]⟩

/-- A `#!` line ends before what comes after the first lexeme. -/
theorem hashbang_spaced (h : hashbang cs = (bang, as ++ bs)) (has : as ≠ []) :
    hashbang (bang ++ (as ++ ' ' :: bs)) = (bang, as ++ ' ' :: bs) := by
  by_cases hbang : ['#', '!'] <+: cs
  · obtain ⟨line, rfl⟩ := hbang
    rw [hashbang_of_isPrefix, Prod.mk.injEq] at h
    obtain ⟨rfl, hrest⟩ := h
    have hends : (as ++ ' ' :: bs).head?.all (fun c => !decide (c ≠ '\n')) := by
      have hnot := List.head?_dropWhile_not (· ≠ '\n') line
      obtain ⟨a, as, rfl⟩ := List.exists_cons_of_ne_nil has
      rw [hrest] at hnot
      simpa using hnot
    obtain ⟨htake, hdrop⟩ := takeWhile_append_of_all
      (List.all_takeWhile (p := (· ≠ '\n')) (l := line)) hends
    show hashbang (['#', '!'] ++ (line.takeWhile (· ≠ '\n') ++ (as ++ ' ' :: bs))) = _
    rw [hashbang_of_isPrefix, htake, hdrop]
  · rw [hashbang_of_not_isPrefix hbang, Prod.mk.injEq] at h
    obtain ⟨rfl, rfl⟩ := h
    refine hashbang_of_not_isPrefix fun hspaced => hbang ?_
    exact (prefix_of_prefix_space (by decide) hspaced).trans (List.prefix_append as bs)

/-- A source with a space at an end of the gap between two lexemes. -/
theorem ofSource_spaced {g₁ g₂ : List Char} (h : ofSource cs = .ok y)
    (hy : y.lexemes = ls ++ l :: m :: ms) (hgap : m.gap = g₁ ++ g₂) (hg : g₁ = [] ∨ g₂ = [])
    (hm : m.kind ≠ .operator "!") :
    ofSource (sources (ls ++ [l]) ++ g₁ ++ ' ' :: (g₂ ++ (m.text ++ (sources ms ++ y.trailing)))) =
      .ok { y with lexemes := ls ++ l :: { m with gap := g₁ ++ ' ' :: g₂ } :: ms } := by
  obtain ⟨⟨xs, trailing, context⟩, hx, rfl, hsubs⟩ := ofSource_eq_ok_iff.1 h
  obtain ⟨ls', l', rfl, hfront, hprepend⟩ := of_prepend hy
  rw [hprepend] at hsubs ⊢
  have hreads := Lexeme.reads_of_lexemesFrom hx
  have hall := (hreads.spaced hgap hg hm).lexemesFrom_of_gap (Lexeme.gap_trailing hx)
  -- The `#!` line stays.
  have hbang : hashbang cs = ((hashbang cs).1,
      (sources (ls' ++ [l']) ++ g₁) ++ (g₂ ++ (m.text ++ (sources ms ++ trailing)))) := by
    refine Prod.ext rfl ((Lexeme.sources_of_lexemesFrom hx).symm.trans ?_)
    simp [Lexeme.source, hgap]
  have hne : sources (ls' ++ [l']) ++ g₁ ≠ [] := by
    have htext : l'.text ≠ [] := hreads.ne_nil (by simp)
    simp [Lexeme.source, htext]
  have hbang' := hashbang_spaced hbang hne
  rw [← List.append_assoc, ← List.append_assoc, hfront] at hbang'
  have hprepended := hprepend ({ m with gap := g₁ ++ ' ' :: g₂ } :: ms) trailing context
  refine ofSource_eq_ok_iff.2 ⟨_, ?_, by rw [hbang', hprepended], hsubs⟩
  rw [hbang']
  simpa [Lexeme.source] using hall

end Lexing

/-! ## Tokens -/

/-- Past a space that is put at byte `p`: a token that starts there moves, and one that ends there
stays. -/
def Relocation.spaced (p : Nat) : Relocation where
  start n := if p ≤ n then n + 1 else n
  stop n := if p < n then n + 1 else n

namespace Token

variable {ls ms : List Lexeme} {m : Lexeme} {ts us : List Token} {t u : Token} {p : Nat}

theorem relocate_spaced_of_le (ht : t.span.start < t.span.stop) (hp : t.span.stop ≤ p) :
    t.relocate (.spaced p) = t := by
  have hstart : ¬p ≤ t.span.start := by omega
  rw [relocate, Span.relocate, Relocation.spaced]
  simp only [if_neg hstart, if_neg (Nat.not_lt.2 hp)]

theorem relocate_spaced_of_ge (ht : t.span.start < t.span.stop) (hp : p ≤ t.span.start) :
    t.relocate (.spaced p) = t.relocate (.forth 1) := by
  have hstop : p < t.span.stop := by omega
  rw [relocate, Span.relocate, Relocation.spaced]
  simp only [if_pos hp, if_pos hstop]
  rfl

theorem place_spaced {g₁ g₂ : List Char} (hne : ∀ l ∈ ls ++ m :: ms, l.text ≠ []) (hgap : m.gap = g₁ ++ g₂)
    (hp : p = Text.byteLength (sources ls ++ g₁)) :
    place 0 (ls ++ { m with gap := g₁ ++ ' ' :: g₂ } :: ms) =
      (place 0 (ls ++ m :: ms)).map (relocate (.spaced p)) := by
  rw [Text.byteLength_append] at hp
  have hms : ∀ l ∈ m :: ms, l.text ≠ [] := fun l hl => hne l (List.mem_append_right ls hl)
  have hbefore : (place 0 ls).map (relocate (.spaced p)) = place 0 ls := by
    refine (List.map_congr_left fun t ht => ?_).trans (List.map_id _)
    have hspan := span_of_mem_place (fun l hl => hne l (List.mem_append_left _ hl)) ht
    exact relocate_spaced_of_le hspan.2.1 (by omega)
  have hmoved : ∀ t ∈ place (Text.byteLength (sources ls)) (m :: ms),
      p ≤ t.span.start ∧ t.span.start < t.span.stop := by
    intro t ht
    rcases List.mem_cons.1 ht with rfl | ht
    · have hpos := byteLength_pos (hms m List.mem_cons_self)
      simp only [hgap, Text.byteLength_append]
      omega
    · have hspan := span_of_mem_place (fun l hl => hms l (List.mem_cons_of_mem _ hl)) ht
      rw [hgap, Text.byteLength_append] at hspan
      omega
  have hafter : place (Text.byteLength (sources ls)) ({ m with gap := g₁ ++ ' ' :: g₂ } :: ms) =
      (place (Text.byteLength (sources ls)) (m :: ms)).map (relocate (.spaced p)) := by
    have hstart : Text.byteLength (sources ls) + Text.byteLength (g₁ ++ ' ' :: g₂) =
        Text.byteLength (sources ls) + 1 + Text.byteLength (g₁ ++ g₂) := by
      have hspace : Char.utf8Size ' ' = 1 := rfl
      rw [Text.byteLength_append, Text.byteLength_append, Text.byteLength_cons, hspace]
      omega
    have hnewline : (g₁ ++ ' ' :: g₂).any Trivia.isLineTerminator =
        (g₁ ++ g₂).any Trivia.isLineTerminator := by
      have hspace : Trivia.isLineTerminator ' ' = false := rfl
      rw [List.any_append, List.any_append, List.any_cons, hspace, Bool.false_or]
    rw [List.map_congr_left fun t ht => relocate_spaced_of_ge (hmoved t ht).2 (hmoved t ht).1,
      ← place_add, place, place, hgap, hstart, hnewline]
  rw [place_append, place_append, List.map_append, hbefore, Nat.zero_add, hafter]

end Token

/-- With a space at the end of a token, or at the start of the next one unless that is a `!`, a source has
the same tokens, from the next one on one byte further on. -/
theorem tokenize_spaced {source : String} {ts us : List Token} {t u : Token} {p : Nat}
    (h : tokenize source = .ok (ts ++ t :: u :: us)) (hu : u.kind ≠ .operator "!")
    (hp : p = t.span.stop ∨ p = u.span.start) :
    ∃ front back, source = front ++ back ∧ Text.byteLength front.toList = p ∧
      tokenize (front ++ " " ++ back) =
        .ok ((ts ++ t :: u :: us).map (Token.relocate (.spaced p))) := by
  obtain ⟨y, hy, hts⟩ := tokenize_eq_ok_iff.1 h
  obtain ⟨ls, l, bs, hls, -, rfl, hback⟩ := Token.of_place_eq_append_cons hts.symm
  obtain ⟨m, ms, rfl⟩ : ∃ m ms, bs = m :: ms := by
    cases bs with
    | nil => cases hback
    | cons m ms => exact ⟨m, ms, rfl⟩
  rw [Token.place, List.cons.injEq] at hback
  obtain ⟨rfl, -⟩ := hback
  obtain ⟨g₁, g₂, hgap, hg, hlength⟩ : ∃ g₁ g₂, m.gap = g₁ ++ g₂ ∧ (g₁ = [] ∨ g₂ = []) ∧
      p = Text.byteLength (sources (ls ++ [l]) ++ g₁) := by
    rcases hp with rfl | rfl
    · exact ⟨[], m.gap, rfl, .inl rfl, by simp [Token.after, Lexeme.source]⟩
    · exact ⟨m.gap, [], by simp, .inr rfl, by rw [Text.byteLength_append]⟩
  have htext := Lexing.text_ne_nil hy
  have hspaced := Lexing.ofSource_spaced hy hls hgap hg hu
  have hsource := Lexing.source_of_ofSource hy
  rw [hls] at htext hts hsource
  refine ⟨String.ofList (sources (ls ++ [l]) ++ g₁),
    String.ofList (g₂ ++ (m.text ++ (sources ms ++ y.trailing))), ?_, ?_, ?_⟩
  · rw [← String.toList_inj, ← hsource]
    simp [Lexeme.source, hgap]
  · rw [String.toList_ofList, hlength]
  · rw [List.append_cons] at htext
    have hmap := Token.place_spaced htext hgap hlength
    rw [tokenize_eq_ok_iff]
    refine ⟨_, by simpa using hspaced, ?_⟩
    rw [hts]
    simpa using hmap.symm

end JobBundler
