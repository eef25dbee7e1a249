import JobBundler.Proofs.Outline.Classes
import JobBundler.Proofs.Token.Relocation
import JobBundler.Reference

/-!
# The text of a class

The text of a class that closes what it opens has by itself the tokens that it has in its source, and
so refers to the same names (`Outline.tokenize_class`).
-/

namespace JobBundler

open Lexeme (sources)

namespace Token

/-- Lexemes without the gap before them, placed at the front. -/
theorem place_front (offset : Nat) (m : Lexeme) (ls : List Lexeme) :
    ∃ t us, place offset (m :: ls) = t :: us ∧
      place 0 ({ m with gap := [] } :: ls) =
        { t.relocate (.back (offset + Text.byteLength m.gap)) with newlineBefore := false } ::
          us.map (relocate (.back (offset + Text.byteLength m.gap))) := by
  refine ⟨_, _, rfl, ?_⟩
  have hstop : offset + Text.byteLength m.gap + Text.byteLength m.text =
      Text.byteLength m.text + (offset + Text.byteLength m.gap) := by omega
  dsimp only
  rw [hstop, place_sub, place]
  simp [relocate, Span.relocate, Relocation.back]

end Token

/-- The names that tokens refer to are told by their kinds. -/
theorem Reference.ofTokens_of_kinds {ts us : List Token} (h : ts.map (·.kind) = us.map (·.kind))
    (previous : Option TokenKind) : ofTokens previous ts = ofTokens previous us := by
  induction ts generalizing us previous with
  | nil =>
    obtain rfl := List.map_eq_nil_iff.1 h.symm
    rfl
  | cons t ts ih =>
    obtain ⟨u, us, rfl, hu, hus⟩ := List.map_eq_cons_iff.1 h.symm
    have hnext : ts.head?.map (·.kind) = us.head?.map (·.kind) := by
      rw [← List.head?_map, ← List.head?_map, hus]
    simp only [ofTokens, Token.name?, hu, hnext, ih hus.symm]

namespace Outline

variable {source : String} {o : Outline} {d : ClassDecl} {ts : List Token}

/-- Whether the text of a class can be read by itself, and the tokens that it has then. -/
theorem tokenize_slice_of_mem (h : ofSource source = .ok o) (hd : d ∈ o.classes)
    (hts : tokenize source = .ok ts) :
    ∃ t us, ts.filter (d.span.encloses ·.span) = t :: us ∧
      ∀ {vs}, tokenize (d.span.slice source) = .ok vs ↔
        Mark.CloseInside ((t :: us).flatMap (Token.marks source)) ∧
          vs = { t.relocate (.back d.span.start) with newlineBefore := false } ::
            us.map (Token.relocate (.back d.span.start)) := by
  obtain ⟨y, hy, ho⟩ := ofSource_eq_ok_iff.1 h
  obtain ⟨as, m, ms, last, bs, b, hlexemes, hm, hlast, hspan⟩ := exists_lexemes_of_mem_classes ho hd
  obtain rfl : Token.place 0 y.lexemes = ts := by
    rw [Lexing.tokenize_eq hy] at hts
    exact Except.ok.inj hts
  have hne := Lexing.text_ne_nil hy
  rw [hlexemes] at hne
  have hfilter : (Token.place 0 y.lexemes).filter (d.span.encloses ·.span) =
      Token.place (Text.byteLength (sources as)) (m :: (ms ++ [last])) := by
    rw [hlexemes, hspan]
    exact Token.filter_encloses hne
  have hsource : source.toList = sources (as ++ m :: (ms ++ [last])) ++ (sources bs ++ y.trailing) := by
    rw [← Lexing.source_of_ofSource hy, hlexemes]
    simp
  obtain ⟨t, us, hplace, hfront⟩ :=
    Token.place_front (Text.byteLength (sources as)) m (ms ++ [last])
  refine ⟨t, us, hfilter.trans hplace, fun {vs} => ?_⟩
  have hstart : d.span.start = Text.byteLength (sources as) + Text.byteLength m.gap := by
    rw [hspan, Token.stretch, Text.byteLength_append]
  rw [← hplace, Token.flatMap_marks_place hsource, hstart, ← hfront, hspan]
  exact tokenize_slice_iff hy hlexemes hm hlast

/-- The text of a class whose tokens are properly nested has the same tokens by itself as in the source,
but that no line ends before the first one. The names that it refers to are those of these tokens. -/
theorem tokenize_class (h : ofSource source = .ok o) (hd : d ∈ o.classes)
    (hts : tokenize source = .ok ts)
    (hn : Mark.Nested ((ts.filter (d.span.encloses ·.span)).flatMap (Token.marks source))) :
    ∃ t us, ts.filter (d.span.encloses ·.span) = t :: us ∧
      tokenize (d.span.slice source) =
        .ok ({ t.relocate (.back d.span.start) with newlineBefore := false } ::
          us.map (Token.relocate (.back d.span.start))) ∧
      Reference.lexical (d.span.slice source) = .ok (.ofList (Reference.ofTokens none (t :: us))) := by
  obtain ⟨t, us, hfilter, htokenize⟩ := tokenize_slice_of_mem h hd hts
  have hclose : Mark.CloseInside ((t :: us).flatMap (Token.marks source)) := by
    rw [← hfilter]
    exact hn.closeInside
  have htokens := htokenize.2 ⟨hclose, rfl⟩
  refine ⟨t, us, hfilter, htokens, ?_⟩
  rw [Reference.lexical, htokens]
  refine congrArg (Except.ok <| NameSet.ofList ·) (Reference.ofTokens_of_kinds ?_ none)
  simp [Token.relocate]

/-- A class after a decorator, with a substitution between its braces. -/
theorem decoratedClass_tokenizes :
    let source := "a\n@j class A \x7b b = \x60$\x7b0\x7d\x60 \x7d"
    let d : ClassDecl :=
      { name := some "A", decorators := [⟨"j", none, ⟨2, 4⟩⟩], exported := .notExported
        span := ⟨2, 27⟩, body := ⟨13, 27⟩ }
    let ts := (tokenize source).toOption.getD []
    Outline.ofSource source = .ok ⟨[], [d]⟩ ∧
      Mark.Nested ((ts.filter (d.span.encloses ·.span)).flatMap (Token.marks source)) ∧
      ∃ t us, ts.filter (d.span.encloses ·.span) = t :: us ∧
        tokenize "@j class A \x7b b = \x60$\x7b0\x7d\x60 \x7d" =
          .ok ({ t.relocate (.back 2) with newlineBefore := false } ::
            us.map (Token.relocate (.back 2))) ∧
        Reference.lexical "@j class A \x7b b = \x60$\x7b0\x7d\x60 \x7d" =
          .ok (.ofList (Reference.ofTokens none (t :: us))) := by
  intro source d ts
  have ho : Outline.ofSource source = .ok ⟨[], [d]⟩ := by decide +kernel
  have hts : tokenize source = .ok ts := by decide +kernel
  have hn : Mark.Nested ((ts.filter (d.span.encloses ·.span)).flatMap (Token.marks source)) := by
    decide +kernel
  have hslice : d.span.slice source = "@j class A \x7b b = \x60$\x7b0\x7d\x60 \x7d" := by
    decide +kernel
  have hclass := tokenize_class ho List.mem_cons_self hts hn
  rw [hslice] at hclass
  exact ⟨ho, hn, hclass⟩

end Outline
end JobBundler
