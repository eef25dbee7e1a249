import JobBundler.Proofs.Token.Balance
import JobBundler.Proofs.Token.Placement

/-!
# Reading a part of a source again

A part of a source that starts with a word or a decorator's sign and ends in a closing bracket has by
itself the tokens that it has in the source, if these close what they open (`tokenize_slice_iff`).
-/

namespace JobBundler

open Lexeme (sources)
open Mark (openAfter)

namespace Token

/-- What a token of this source opens and closes. -/
def marks (source : String) (t : Token) : List Mark :=
  Mark.ofToken t.kind (t.span.slice source).toList

theorem flatMap_marks_place {source : String} {as ls : List Lexeme} {rest : List Char}
    (h : source.toList = sources (as ++ ls) ++ rest) :
    (place (Text.byteLength (sources as)) ls).flatMap (marks source) = ls.flatMap Lexeme.marks := by
  induction ls generalizing as with
  | nil => rfl
  | cons l ls ih =>
    have hl : source.toList = sources (as ++ l :: []) ++ (sources ls ++ rest) := by
      rw [h]
      simp
    have hslice := slice_stretch as l [] hl
    have hspan : stretch as l [] =
        ⟨Text.byteLength (sources as) + Text.byteLength l.gap,
          Text.byteLength (sources as) + Text.byteLength l.gap + Text.byteLength l.text⟩ := by
      simp [stretch, Lexeme.source, Nat.add_assoc]
    have hoffset : Text.byteLength (sources as) + Text.byteLength l.gap + Text.byteLength l.text =
        Text.byteLength (sources (as ++ [l])) := by
      simp [Lexeme.source, Nat.add_assoc]
    have hls : source.toList = sources (as ++ [l] ++ ls) ++ rest := by
      rw [h]
      simp
    rw [place, List.flatMap_cons, List.flatMap_cons, hoffset, ih hls]
    congr 1
    rw [marks, ← hoffset, ← hspan, hslice, String.toList_ofList]
    simp [Lexeme.marks]

end Token

namespace TokenKind

/-- A word or the sign of a decorator. -/
def Leads (kind : TokenKind) : Prop :=
  kind = .atSign ∨ ∃ name, kind = .ident name

end TokenKind

namespace Context

/-- Only a `!` is taken in another way when it is glued to the token before it. -/
theorem after_of_ne {kind : TokenKind} (h : kind ≠ .operator "!") (ctx : Context) (glued : Bool) :
    ctx.after glued kind = { ctx with regexAllowed := kind.allowsRegexAfter } := by
  rw [after, beq_eq_false_iff_ne.2 h]
  rfl

end Context

namespace Lexeme

variable {ctx ctx' : Context} {glued : Bool} {c : Char} {cs rest : List Char} {l : Lexeme}
  {kind : TokenKind} {text : List Char}

theorem after_leads (hk : kind.Leads) (ctx : Context) (glued : Bool) :
    ctx.after glued kind = { ctx with regexAllowed := kind.allowsRegexAfter } := by
  refine Context.after_of_ne ?_ ctx glued
  rcases hk with rfl | ⟨name, rfl⟩ <;> simp

theorem text_of_kind_atSign (h : Punctuator.kind text = .atSign) : text = ['@'] := by
  unfold Punctuator.kind at h
  split at h
  all_goals first | rfl | cases h

/-- The sign of a decorator is read as a punctuator. -/
theorem read_atSign (h : read ctx glued c cs = .ok ⟨.atSign, text, ctx', rest⟩) :
    c = '@' ∧ ∀ ctx glued, read ctx glued '@' cs =
      .ok ⟨.atSign, text, ctx.after glued .atSign, rest⟩ := by
  cases read_eq_ok h with
  | punctuator hfront hkind =>
    obtain rfl := text_of_kind_atSign hkind
    obtain ⟨more, hmore⟩ := Punctuator.front?_isPrefix hfront
    rw [List.singleton_append] at hmore
    obtain ⟨rfl, rfl⟩ := List.cons.inj hmore
    refine ⟨rfl, fun ctx glued => ?_⟩
    show readPunctuator ctx glued '@' more = _
    rw [readPunctuator, hfront]
    rfl

/-- How a word or the sign of a decorator is read does not depend on what is before it. -/
theorem read_of_leads (hk : kind.Leads) (h : read ctx glued c cs = .ok ⟨kind, text, ctx', rest⟩) :
    (c ≠ '/' ∧ c ≠ '#' ∧ Trivia.isSpace c = false) ∧
      ∀ ctx glued, read ctx glued c cs = .ok ⟨kind, text, ctx.after glued kind, rest⟩ := by
  rcases hk with rfl | ⟨name, rfl⟩
  · obtain ⟨rfl, hread⟩ := read_atSign h
    exact ⟨by decide, hread⟩
  · obtain ⟨⟨c', cs', hname, hc, hcs⟩, htext, hends, -⟩ := name_of_read h rfl
    have happend := read_append h
    dsimp only at htext hends happend
    subst htext
    rw [hname] at happend
    obtain ⟨rfl, rfl⟩ := List.cons.inj happend
    refine ⟨⟨?_, ?_, Literal.isSpace_of_isNameStart hc⟩, fun ctx glued => read_name hname hc hcs hends glued⟩
    · rintro rfl
      exact absurd hc (by decide)
    · rintro rfl
      exact absurd hc (by decide)

theorem next_of_leads (hk : l.kind.Leads) (h : next ctx cs = .ok (.lexeme l ctx' rest)) :
    (∃ c tl, l.text = c :: tl ∧ c ≠ '/' ∧ c ≠ '#' ∧ Trivia.isSpace c = false) ∧
      ctx' = { ctx with regexAllowed := l.kind.allowsRegexAfter } ∧
      ∀ ctx, next ctx (l.text ++ rest) =
        .ok (.lexeme { l with gap := [] } { ctx with regexAllowed := l.kind.allowsRegexAfter } rest) := by
  obtain ⟨c, tl, htext, -, hread⟩ := next_eq_ok h
  obtain ⟨hc, hall⟩ := read_of_leads hk hread
  have hctx := (Reading.mk.inj (Except.ok.inj (hread.symm.trans (hall ctx l.gap.isEmpty)))).2.2.1
  rw [after_leads hk] at hctx
  refine ⟨⟨c, tl, htext, hc⟩, hctx, fun ctx => ?_⟩
  have hgap : Trivia.gap (c :: (tl ++ rest)) = .ok ([], c :: (tl ++ rest)) :=
    Trivia.gap_of_not_isSpace hc.2.2 hc.1
  rw [htext, List.cons_append, next_of_gap hgap (hall ctx true), after_leads hk]

variable {base : Context} {m last : Lexeme} {ms : List Lexeme} {b : Bracket}

/-- The text of lexemes from a word or the sign of a decorator on to a closing bracket has these lexemes
by itself, or none when they do not close what they open and nothing else. -/
theorem ofSource_excerpt (hn : base.Nested) (h : Reads rest base (m :: (ms ++ [last])) ctx')
    (hm : m.kind.Leads) (hlast : last.kind = .closing b) :
    (Mark.CloseInside ((m :: (ms ++ [last])).flatMap marks) ∧
      ∃ ctx, Lexing.ofSource (m.text ++ sources (ms ++ [last])) =
        .ok ⟨{ m with gap := [] } :: (ms ++ [last]), [], ctx⟩) ∨
    (¬Mark.CloseInside ((m :: (ms ++ [last])).flatMap marks) ∧
      ∀ x, Lexing.ofSource (m.text ++ sources (ms ++ [last])) ≠ .ok x) := by
  cases h with
  | cons head tail =>
    obtain ⟨⟨c, tl, htext, hc⟩, rfl, halone⟩ := next_of_leads hm head
    have hhead : (m.text ++ sources (ms ++ [last])).head? ≠ some '#' := by
      rw [htext]
      simpa using hc.2.1
    have hmarks : marks m = [] := by
      rcases hm with h | ⟨name, h⟩ <;> rw [marks, h] <;> rfl
    rw [← Context.around_nil] at tail
    rw [List.flatMap_cons, hmarks, List.nil_append]
    rcases reads_of_around hn (Context.nested_nil _) tail with ⟨ctx₁, hreads⟩ | ⟨hexceed, hfails⟩
    · have hleads := hreads.leads
      have hclose : Mark.CloseInside ((ms ++ [last]).flatMap marks) ↔ ctx₁.substitutions = [] := by
        have hdepth : openAfter (.bracket .brace) 0 ((ms ++ [last]).flatMap marks) = _ := hleads.depth
        have hsubs : openAfter .substitution 0 ((ms ++ [last]).flatMap marks) = _ :=
          hleads.substitutions
        rw [Mark.CloseInside, hdepth, hsubs]
        simp
      have hall : Reads rest .initial (({ m with gap := [] } :: ms) ++ [last]) ctx₁ :=
        .cons (halone .initial) hreads
      have hsource {x : Lexing} := Lexing.ofSource_sources_iff (y := x) (hall.of_closing hlast []) hhead
      rw [hclose]
      by_cases hs : ctx₁.substitutions = []
      · exact .inl ⟨hs, ctx₁, hsource.2 ⟨rfl, hs⟩⟩
      · exact .inr ⟨hs, fun x hx => hs (hsource.1 hx).2⟩
    · have hclose : ¬Mark.CloseInside ((ms ++ [last]).flatMap marks) :=
        fun h => h.not_exceed hexceed
      refine .inr ⟨hclose, fun x hx => ?_⟩
      obtain ⟨x', hx', -⟩ := Lexing.ofSource_eq_ok_iff.1 hx
      obtain ⟨hfront, f, hf⟩ := hfails []
      rw [List.append_nil] at hf hfront
      have hnext : next .initial (m.text ++ sources (ms ++ [last])) = .ok (.lexeme { m with gap := [] }
          ⟨0, [], m.kind.allowsRegexAfter⟩ (sources (ms ++ [last]))) :=
        next_of_sameFront (l := { m with gap := [] }) (halone .initial) hfront
      rw [Lexing.hashbang_of_head? hhead, lexemesFrom_of_next hnext, hf] at hx'
      cases hx'

end Lexeme

/-- The lexemes of a source are read from their texts but for the gap before the first one, to which a
line may belong that starts with a number sign. -/
theorem Lexing.exists_reads_from {cs : List Char} {y : Lexing} (h : ofSource cs = .ok y)
    {as bs : List Lexeme} {m : Lexeme} (hy : y.lexemes = as ++ m :: bs) :
    ∃ ctx gap, ctx.Nested ∧ Lexeme.Reads y.trailing ctx ({ m with gap } :: bs) y.context := by
  rcases as with _ | ⟨a, as⟩
  · obtain ⟨x, hx, rfl, -⟩ := ofSource_eq_ok_iff.1 h
    have hreads := Lexeme.reads_of_lexemesFrom hx
    obtain ⟨l, hls, rfl, htrailing⟩ := exists_of_prepend hy
    rw [hls] at hreads
    rw [htrailing, context_prepend]
    exact ⟨.initial, l.gap, Context.nested_initial, hreads⟩
  · obtain ⟨ctx, hn, hreads⟩ := reads_of_ofSource h hy (List.cons_ne_nil a as)
    exact ⟨ctx, m.gap, hn, hreads⟩

variable {source : String} {y : Lexing} {as ms bs : List Lexeme} {m last : Lexeme} {b : Bracket}

/-- A part of a source that starts with a word or the sign of a decorator and ends in a closing bracket
can be read by itself if and only if it closes what it opens and nothing else, and it has the same
tokens then. -/
theorem tokenize_slice_iff (hy : Lexing.ofSource source.toList = .ok y)
    (h : y.lexemes = as ++ (m :: (ms ++ [last]) ++ bs)) (hm : m.kind.Leads)
    (hlast : last.kind = .closing b) {ts : List Token} :
    tokenize ((Token.stretch as m (ms ++ [last])).slice source) = .ok ts ↔
      Mark.CloseInside ((m :: (ms ++ [last])).flatMap Lexeme.marks) ∧
        ts = Token.place 0 ({ m with gap := [] } :: (ms ++ [last])) := by
  have hsource : source.toList =
      sources (as ++ m :: (ms ++ [last])) ++ (sources bs ++ y.trailing) := by
    rw [← Lexing.source_of_ofSource hy, h]
    simp
  obtain ⟨ctx, gap, hn, hreads⟩ := Lexing.exists_reads_from hy h
  have hreads : Lexeme.Reads y.trailing ctx (({ m with gap } :: (ms ++ [last])) ++ bs) y.context :=
    hreads
  obtain ⟨ctx₁, hreads, -⟩ := hreads.of_append
  rw [Token.slice_stretch as m (ms ++ [last]) hsource, tokenize, String.toList_ofList]
  rcases Lexeme.ofSource_excerpt hn hreads hm hlast with ⟨hclose, ctx', hx⟩ | ⟨hclose, hx⟩
  · rw [hx]
    constructor
    · rintro ⟨⟩
      exact ⟨hclose, rfl⟩
    · rintro ⟨-, rfl⟩
      rfl
  · refine iff_of_false ?_ fun h => hclose h.1
    cases hx' : Lexing.ofSource (m.text ++ sources (ms ++ [last])) with
    | error f => rintro ⟨⟩
    | ok x => exact absurd hx' (hx x)

end JobBundler
