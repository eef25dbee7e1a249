import JobBundler.Proofs.Token.Substitutions

/-!
# Substitutions without an end

Where a source ends in a substitution, its tokens tell the chunk that opened the innermost open one
(`Token.IsOpener`): the substitutions that start after it also end there. The error of such a source goes
to the end of the source, but it starts at the last chunk of all, which is this one only if no template
stands in the open substitution (`openSubstitution_starts_iff`).
-/

namespace JobBundler

open Lexeme (sources)
open Mark (openAfter)

/-- A chunk of a template literal. -/
def TokenKind.isChunk : TokenKind → Bool
  | .template _ => true
  | _ => false

deriving instance DecidableEq for Lexing

/-! ## The last chunk -/

section
variable {as bs ls before after : List Lexeme} {l : Lexeme}

theorem splitAtLastChunk_eq_none_iff :
    splitAtLastChunk ls = none ↔ ∀ l ∈ ls, l.kind.isChunk = false := by
  induction ls with
  | nil => simp [splitAtLastChunk]
  | cons l ls ih =>
    rw [splitAtLastChunk, List.forall_mem_cons, ← ih]
    cases splitAtLastChunk ls with
    | some p => simp
    | none => cases hl : l.kind <;> simp [TokenKind.isChunk]

theorem splitAtLastChunk_cons_of_none (hl : l.kind.isChunk) (h : splitAtLastChunk bs = none) :
    splitAtLastChunk (l :: bs) = some ([], l :: bs) := by
  rw [splitAtLastChunk, h]
  cases hkind : l.kind with
  | template chunk => rfl
  | _ => simp [hkind, TokenKind.isChunk] at hl

theorem splitAtLastChunk_append_of_some (as : List Lexeme)
    (h : splitAtLastChunk bs = some (before, after)) :
    splitAtLastChunk (as ++ bs) = some (as ++ before, after) := by
  induction as with
  | nil => exact h
  | cons a as ih => rw [List.cons_append, splitAtLastChunk, ih]; rfl

theorem exists_cons_of_splitAtLastChunk (h : splitAtLastChunk ls = some (before, after)) :
    ∃ l more, after = l :: more := by
  induction ls generalizing before with
  | nil => cases h
  | cons l ls ih =>
    rw [splitAtLastChunk] at h
    split at h
    · rename_i hls
      cases h
      exact ih hls
    · cases h
      exact ⟨_, _, rfl⟩
    · cases h

end

namespace Lexing

variable {cs : List Char} {y : Lexing} {as bs ls : List Lexeme} {l o : Lexeme}

/-- What a source is read as up to its end, where a substitution is still open. -/
structure EndsOpen (cs : List Char) (y : Lexing) : Prop where
  read : ∃ x, lexemesFrom .initial (hashbang cs).2 = .ok x ∧ y = x.prepend (hashbang cs).1
  opened : y.context.substitutions ≠ []

namespace EndsOpen

theorem source (h : EndsOpen cs y) : sources y.lexemes ++ y.trailing = cs := by
  obtain ⟨x, hx, rfl⟩ := h.read
  rw [prepend_source, Lexeme.sources_of_lexemesFrom hx, hashbang_append]

theorem ofSource_eq (h : EndsOpen cs y) : ofSource cs = .error (openSubstitution y) := by
  obtain ⟨⟨x, hx, rfl⟩, hopened⟩ := h
  rw [ofSource]
  simp only [hx]
  rw [if_neg (by simpa using hopened)]

theorem tokenize_eq {source : String} (h : EndsOpen source.toList y) :
    tokenize source = .error (openSubstitution y).toError := by
  rw [tokenize, h.ofSource_eq]

/-- Some substitution is open by the tokens too. -/
theorem openAfter_marks (h : EndsOpen cs y) :
    ∃ n, openAfter .substitution 0 (y.lexemes.flatMap Lexeme.marks) = some n ∧ 0 < n := by
  obtain ⟨⟨x, hx, rfl⟩, hopened⟩ := h
  have hleads := leads_of_lexemesFrom hx (hashbang cs).1
  exact ⟨_, hleads.substitutions, List.length_pos_iff.2 hopened⟩

end EndsOpen

theorem openSubstitution_cause (y : Lexing) : (openSubstitution y).cause = .unterminatedTemplate := by
  unfold openSubstitution
  split <;> rfl

theorem openSubstitution_stop (h : sources y.lexemes ++ y.trailing = cs) :
    (openSubstitution y).toError.span.stop = Text.byteLength cs := by
  rw [Fault.toError, ← Text.byteLength_append, openSubstitution_source]
  exact congrArg Text.byteLength h

theorem openSubstitution_start (h : splitAtLastChunk y.lexemes = some (as, l :: ls)) :
    (openSubstitution y).toError.span.start = Text.byteLength (sources as ++ l.gap) := by
  rw [openSubstitution, h]
  rfl

/-- The fault starts at this chunk unless there is one after it. -/
theorem openSubstitution_start_iff (hy : y.lexemes = as ++ o :: bs) (ho : o.kind.isChunk)
    (hne : o.text ≠ []) :
    (openSubstitution y).toError.span.start = Text.byteLength (sources as ++ o.gap) ↔
      ∀ l ∈ bs, l.kind.isChunk = false := by
  rw [← splitAtLastChunk_eq_none_iff]
  cases hbs : splitAtLastChunk bs with
  | none =>
    have hsplit := splitAtLastChunk_append_of_some as (splitAtLastChunk_cons_of_none ho hbs)
    rw [← hy, List.append_nil] at hsplit
    exact iff_of_true (openSubstitution_start hsplit) rfl
  | some p =>
    obtain ⟨mid, after⟩ := p
    obtain ⟨l, more, rfl⟩ := exists_cons_of_splitAtLastChunk hbs
    have hsplit := splitAtLastChunk_append_of_some (as ++ [o]) hbs
    rw [List.append_assoc, List.singleton_append, ← hy] at hsplit
    refine iff_of_false (fun hstart => ?_) (by simp)
    have hpos := Token.byteLength_pos hne
    rw [openSubstitution_start hsplit] at hstart
    simp [Lexeme.source] at hstart
    omega

end Lexing

namespace Token

variable {source : String} {ts inside inside' : List Token} {t u : Token} {y : Lexing}

/-- The chunk that opens the innermost open substitution, and the tokens after it: each substitution that
starts among them ends there. -/
structure IsOpener (source : String) (ts : List Token) (t : Token) (inside : List Token) : Prop where
  among : t :: inside <:+ ts
  starts : t.StartsSubstitution source
  closed : openAfter .substitution 0 (inside.flatMap (marks source)) = some 0

theorem IsOpener.unique (h : IsOpener source ts t inside) (h' : IsOpener source ts u inside') :
    t = u ∧ inside = inside' := by
  obtain ⟨front, hts⟩ := h.among
  obtain ⟨front', hts'⟩ := h'.among
  exact before_unique (hts.trans hts'.symm) h.closed h'.closed h.starts h'.starts

theorem exists_isOpener (h : Lexing.EndsOpen source.toList y) :
    ∃ t inside, IsOpener source (place 0 y.lexemes) t inside := by
  have hmarks : (place (Text.byteLength (sources [])) y.lexemes).flatMap (marks source) =
      y.lexemes.flatMap Lexeme.marks :=
    flatMap_marks_place h.source.symm
  rw [Lexeme.sources_nil, Text.byteLength_nil] at hmarks
  obtain ⟨n, hn, hpos⟩ := h.openAfter_marks
  rw [← hmarks] at hn
  obtain ⟨before, inner, hsplit, hinner⟩ := Mark.exists_opens hn hpos
  obtain ⟨front, t, inside, hts, ht, rfl⟩ := exists_startsSubstitution hsplit
  exact ⟨t, inside, ⟨front, hts.symm⟩, ht, hinner⟩

theorem forall_kind_place {P : TokenKind → Prop} (offset : Nat) (ls : List Lexeme) :
    (∀ u ∈ place offset ls, P u.kind) ↔ ∀ l ∈ ls, P l.kind := by
  calc (∀ u ∈ place offset ls, P u.kind)
      ↔ ∀ kind ∈ (place offset ls).map (·.kind), P kind := List.forall_mem_map.symm
    _ ↔ ∀ kind ∈ ls.map (·.kind), P kind := by rw [map_kind_place]
    _ ↔ ∀ l ∈ ls, P l.kind := List.forall_mem_map

/-- Nothing after the opener is a chunk exactly if the error starts there. -/
theorem IsOpener.start_iff (h : Lexing.EndsOpen source.toList y)
    (ht : IsOpener source (place 0 y.lexemes) t inside) :
    (openSubstitution y).toError.span.start = t.span.start ↔
      ∀ u ∈ inside, u.kind.isChunk = false := by
  obtain ⟨front, hts⟩ := ht.among
  obtain ⟨as, o, bs, hls, -, rfl, rfl⟩ := of_place_eq_append_cons hts.symm
  obtain ⟨⟨chunk, hkind⟩, hsuffix⟩ := ht.starts
  have htext : source.toList = sources (as ++ o :: bs) ++ y.trailing := by
    rw [← hls, h.source]
  rw [slice_after htext, String.toList_ofList] at hsuffix
  have hne : o.text ≠ [] := by
    intro hnil
    rw [hnil] at hsuffix
    exact absurd (List.suffix_nil.1 hsuffix) (by decide)
  have ho : o.kind.isChunk := by
    rw [show o.kind = .template chunk from hkind]
    rfl
  refine (Lexing.openSubstitution_start_iff hls ho hne).trans ?_
  exact (forall_kind_place (P := (·.isChunk = false)) _ bs).symm

end Token

/-- A source that ends in a substitution is not read, and the error goes to its end. It starts at the
chunk that opened the innermost open substitution exactly if there is no chunk after this one. -/
theorem openSubstitution_starts_iff {source : String} {y : Lexing}
    (h : Lexing.EndsOpen source.toList y) :
    ∃ t inside e, Token.IsOpener source (Token.place 0 y.lexemes) t inside ∧
      (∀ u inside', Token.IsOpener source (Token.place 0 y.lexemes) u inside' →
        u = t ∧ inside' = inside) ∧
      tokenize source = .error e ∧
      e.cause = .unterminatedTemplate ∧
      e.span.stop = Text.byteLength source.toList ∧
      (e.span.start = t.span.start ↔ ∀ u ∈ inside, u.kind.isChunk = false) := by
  obtain ⟨t, inside, ht⟩ := Token.exists_isOpener h
  exact ⟨t, inside, _, ht, fun u inside' hu => hu.unique ht, h.tokenize_eq,
    Lexing.openSubstitution_cause y, Lexing.openSubstitution_stop h.source, ht.start_iff h⟩

/-- A template that starts in a substitution of another one, with both substitutions open. -/
theorem innerTemplate_located :
    let source := "\x60x$\x7bf(\x60y$\x7bz"
    ∃ y, Lexing.EndsOpen source.toList y ∧ ∃ e, tokenize source = .error e ∧ e.span.start = 6 := by
  intro source
  let opener : Token := ⟨.template "y", ⟨6, 10⟩, false⟩
  let y : Lexing :=
    { lexemes := [⟨[], "\x60x$\x7b".toList, .template "x"⟩, ⟨[], ['f'], .ident "f"⟩,
        ⟨[], ['('], .opening .paren⟩, ⟨[], "\x60y$\x7b".toList, .template "y"⟩, ⟨[], ['z'], .ident "z"⟩]
      trailing := []
      context := ⟨0, [0, 0], false⟩ }
  have hy : Lexing.EndsOpen source.toList y := ⟨⟨y, by decide +kernel, by decide +kernel⟩, by decide⟩
  have hopener : Token.IsOpener source (Token.place 0 y.lexemes) opener
      [⟨.ident "z", ⟨10, 11⟩, false⟩] :=
    ⟨by decide +kernel, ⟨⟨"y", rfl⟩, by decide +kernel⟩, by decide +kernel⟩
  obtain ⟨t, inside, e, -, hunique, he, -, -, hstart⟩ := openSubstitution_starts_iff hy
  obtain ⟨rfl, rfl⟩ := hunique _ _ hopener
  exact ⟨y, hy, e, he, hstart.2 (by decide)⟩

/-- A template that is complete stands in the open substitution, and the error starts at it. -/
theorem completeTemplate_blamed :
    let source := "\x60a$\x7b\x60b\x60"
    let opener : Token := ⟨.template "a", ⟨0, 4⟩, false⟩
    let complete : Token := ⟨.template "b", ⟨4, 7⟩, false⟩
    let y : Lexing :=
      { lexemes := [⟨[], "\x60a$\x7b".toList, .template "a"⟩, ⟨[], "\x60b\x60".toList, .template "b"⟩]
        trailing := []
        context := ⟨0, [0], false⟩ }
    Lexing.EndsOpen source.toList y ∧ Token.IsOpener source (Token.place 0 y.lexemes) opener [complete] ∧
      tokenize source = .error ⟨.unterminatedTemplate, ⟨4, 7⟩⟩ := by
  intro source opener complete y
  refine ⟨⟨⟨y, ?_, ?_⟩, ?_⟩, ⟨?_, ⟨⟨"a", rfl⟩, ?_⟩, ?_⟩, ?_⟩ <;> decide +kernel

end JobBundler
