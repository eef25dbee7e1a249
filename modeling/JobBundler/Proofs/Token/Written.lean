import JobBundler.Proofs.Token.Reads
import Mathlib.Data.List.Infix

/-!
# How gaps and tokens are written

What the text of a gap (`Trivia.IsGap`) and of a token of each kind (`TokenKind.IsWritten`) looks like, said
apart from the functions that read them. A gap is one (`Trivia.isGap_of_gap`), and a token is written as its
kind says (`Lexeme.isWritten_of_read`). Where reading fails, the fault is at the front of the text
(`Lexeme.fault_of_read`).
-/

namespace JobBundler

/-! ## Gaps -/

namespace Trivia

/-- White space, byte order marks and complete comments. A line comment ends before the end of its line; it
may end with the gap where that reaches to the end of the text. -/
inductive IsGap (atEnd : Bool) : List Char → Prop
  | nil : IsGap atEnd []
  | space {c : Char} {cs : List Char} (hc : isSpace c) (h : IsGap atEnd cs) : IsGap atEnd (c :: cs)
  | lineComment {body cs : List Char} (hbody : ∀ c ∈ body, !endsLineComment c)
    (hend : cs.head?.elim atEnd endsLineComment = true) (h : IsGap atEnd cs) :
    IsGap atEnd ('/' :: '/' :: (body ++ cs))
  | blockComment {body cs : List Char} (hbody : ¬['*', '/'] <:+: body ++ ['*'])
    (h : IsGap atEnd cs) : IsGap atEnd ('/' :: '*' :: (body ++ '*' :: '/' :: cs))

/-- A gap at the front of a source, where a `#!` line may stand. -/
inductive IsLeadingGap (atEnd : Bool) : List Char → Prop
  | plain {cs : List Char} (h : IsGap atEnd cs) : IsLeadingGap atEnd cs
  | hashbang {line cs : List Char} (hline : '\n' ∉ line) (hend : cs.head?.elim atEnd (· == '\n') = true)
    (h : IsGap atEnd cs) : IsLeadingGap atEnd ('#' :: '!' :: (line ++ cs))

variable {cs front rest : List Char}

/-- A block comment goes on to the first `*/`. -/
theorem blockComment?_eq_some {body : List Char} (h : blockComment? cs = some (body, rest)) :
    ∃ inner, body = inner ++ ['*', '/'] ∧ ¬['*', '/'] <:+: inner ++ ['*'] := by
  fun_induction blockComment? cs generalizing body with
  | case1 => cases h
  | case2 =>
    cases h
    exact ⟨[], rfl, by decide⟩
  | case3 c cs hne ih =>
    obtain ⟨⟨body', rest'⟩, hbody, heq⟩ := Option.map_eq_some_iff.1 h
    cases heq
    obtain ⟨inner, rfl, hinner⟩ := ih hbody
    refine ⟨c :: inner, rfl, fun hinfix => ?_⟩
    rcases List.infix_cons_iff.1 hinfix with ⟨more, hprefix⟩ | hinfix
    · obtain ⟨rfl, hprefix⟩ := List.cons.inj hprefix
      have hcs := blockComment?_append hbody
      rcases inner with _ | ⟨a, inner⟩
      · cases hprefix
      · cases hprefix
        exact hne _ rfl hcs.symm
    · exact hinner hinfix

theorem head?_of_gap {c : Char} (hc : isSpace c) (h : gap (c :: cs) = .ok (front, rest)) :
    front.head? = some c := by
  rw [gap_cons_of_isSpace hc] at h
  obtain ⟨g, -, rfl⟩ := extendGap_eq_ok_iff.1 h
  rfl

theorem isSpace_of_endsLineComment {c : Char} (h : endsLineComment c) : isSpace c := by
  simp only [endsLineComment, Bool.or_eq_true, beq_iff_eq] at h
  rcases h with rfl | rfl <;> decide

theorem isGap_of_gap (h : gap cs = .ok (front, rest)) : IsGap rest.isEmpty front := by
  fun_induction gap cs generalizing front rest with
  | case1 line ih =>
    obtain ⟨g, hg, rfl⟩ := extendGap_eq_ok_iff.1 h
    refine .lineComment (List.all_eq_true.1 List.all_takeWhile) ?_ (ih hg)
    have hends := List.head?_dropWhile_not (!endsLineComment ·) line
    cases hline : line.dropWhile (!endsLineComment ·) with
    | nil =>
      rw [hline, gap_nil] at hg
      cases hg
      rfl
    | cons c more =>
      rw [hline] at hg hends
      have hc : endsLineComment c := by simpa using hends
      rw [head?_of_gap (isSpace_of_endsLineComment hc) hg]
      exact hc
  | case2 => cases h
  | case3 more body rest' hb ih =>
    obtain ⟨g, hg, rfl⟩ := extendGap_eq_ok_iff.1 h
    obtain ⟨inner, rfl, hinner⟩ := blockComment?_eq_some hb
    simp only [List.cons_append, List.append_assoc, List.nil_append]
    exact .blockComment hinner (ih hg)
  | case4 c rest' _ _ hc ih =>
    obtain ⟨g, hg, rfl⟩ := extendGap_eq_ok_iff.1 h
    exact .space hc (ih hg)
  | case5 | case6 =>
    cases h
    exact .nil

theorem extendGap_eq_error {r : Except Fault (List Char × List Char)} {f : Fault}
    (h : extendGap front r = .error f) : ∃ f', r = .error f' ∧ f = f'.after front := by
  rcases r with f' | g <;> cases h
  exact ⟨f', rfl, rfl⟩

/-- A comment without an end reaches to the end of the text. -/
theorem fault_of_gap {f : Fault} (h : gap cs = .error f) : f.lead ++ f.text = cs := by
  fun_induction gap cs generalizing f with
  | case1 line ih =>
    obtain ⟨f', hf, rfl⟩ := extendGap_eq_error h
    simp [Fault.after, ih hf, List.takeWhile_append_dropWhile]
  | case2 more hb =>
    cases h
    rfl
  | case3 more body rest' hb ih =>
    obtain ⟨f', hf, rfl⟩ := extendGap_eq_error h
    simp [Fault.after, ih hf, blockComment?_append hb]
  | case4 c rest' _ _ hc ih =>
    obtain ⟨f', hf, rfl⟩ := extendGap_eq_error h
    simp [Fault.after, ih hf]
  | case5 | case6 => cases h

end Trivia

/-! ## Tokens -/

/-- How a token of this kind is written. -/
def TokenKind.IsWritten : TokenKind → List Char → Prop
  | .ident name, text => text = name.toList
  | .privateName name, text => text = '#' :: name.toList
  | .str value, text => ∃ quote body, (quote = '"' ∨ quote = '\'') ∧
      text = quote :: (body ++ [quote]) ∧ value.toList = Token.unescape body
  | .template chunk, text => ∃ opener, ∃ chunkEnd : Literal.ChunkEnd, (opener = '\x60' ∨ opener = '}') ∧
      text = opener :: (chunk.toList ++ chunkEnd.text)
  | .number digits, text => text = digits.toList
  | .regex pattern, text => text = pattern.toList
  | .opening b, text => text = [b.openingChar]
  | .closing b, text => text = [b.closingChar]
  | .semicolon, text => text = [';']
  | .comma, text => text = [',']
  | .colon, text => text = [':']
  | .dot, text => text = ['.']
  | .optionalChain, text => text = ['?', '.']
  | .ellipsis, text => text = ['.', '.', '.']
  | .atSign, text => text = ['@']
  | .assign, text => text = ['=']
  | .arrow, text => text = ['=', '>']
  | .less, text => text = ['<']
  | .greater, text => text = ['>']
  | .star, text => text = ['*']
  | .operator sign, text => text = sign.toList

theorem Punctuator.isWritten_kind (text : List Char) : (kind text).IsWritten text := by
  unfold kind
  split <;> simp [TokenKind.IsWritten, Bracket.openingChar, Bracket.closingChar]

namespace Lexeme

variable {ctx ctx' : Context} {glued : Bool} {c : Char} {cs rest : List Char} {r : Reading} {f : Fault}

/-- A token is written as its kind says. -/
theorem isWritten_of_read (h : read ctx glued c cs = .ok r) : r.kind.IsWritten r.text := by
  cases read_eq_ok h with
  | name | number | regex => exact String.toList_ofList.symm
  | string hc => exact ⟨c, _, hc, rfl, String.toList_ofList⟩
  | chunk hc => exact ⟨c, _, .inl hc, by rw [String.toList_ofList]⟩
  | nextChunk hc => exact ⟨c, _, .inr hc, by rw [String.toList_ofList]⟩
  | openingBrace hc | closingBrace hc => exact congrArg (· :: []) hc
  | privateName hc => exact congrArg₂ (· :: ·) hc String.toList_ofList.symm
  | punctuator _ hkind =>
    subst hkind
    exact Punctuator.isWritten_kind _

/-! ## Faults -/

theorem stringBody_isPrefix (quote : Char) (cs : List Char) : (Literal.stringBody quote cs).1 <+: cs := by
  fun_induction Literal.stringBody quote cs with
  | case1 => exact List.prefix_rfl
  | case2 cs ih => simpa using ih
  | case3 c cs _ ih => simpa using ih
  | case4 | case5 => exact List.nil_prefix
  | case6 c cs _ _ _ _ ih => simpa using ih

theorem regexBody_isPrefix (inClass : Bool) (cs : List Char) :
    (Literal.regexBody inClass cs).1 <+: cs := by
  fun_induction Literal.regexBody inClass cs with
  | case1 => exact List.prefix_rfl
  | case2 => simp
  | case3 _ c cs _ ih => simpa using ih
  | case4 => exact List.nil_prefix
  | case5 => simp_all
  | case6 _ c cs _ _ _ ih => simpa using ih

theorem fault_of_readChunk (h : readChunk ctx c cs = .error f) : f.lead ++ f.text <+: c :: cs := by
  unfold readChunk at h
  split at h <;> cases h
  exact List.prefix_rfl

theorem fault_of_readString (h : readString ctx c cs = .error f) : f.lead ++ f.text <+: c :: cs := by
  unfold readString at h
  split at h <;> cases h
  rename_i body hbody
  have hprefix := stringBody_isPrefix c cs
  rw [hbody] at hprefix
  simpa using hprefix

theorem fault_of_readRegex (h : readRegex ctx cs = .error f) : f.lead ++ f.text <+: '/' :: cs := by
  unfold readRegex at h
  split at h <;> cases h
  rename_i body hbody
  have hprefix := regexBody_isPrefix false cs
  rw [hbody] at hprefix
  simpa using hprefix

theorem fault_of_readClosingBrace (h : readClosingBrace ctx cs = .error f) :
    f.lead ++ f.text <+: '}' :: cs := by
  unfold readClosingBrace at h
  split at h
  · exact fault_of_readChunk h
  · split at h <;> cases h
    simp

/-- A token that cannot be read is at fault from its first character on. -/
theorem fault_of_read (h : read ctx glued c cs = .error f) : f.lead ++ f.text <+: c :: cs := by
  unfold read at h
  split at h
  · cases h
  split at h
  · cases h
  split at h
  · exact fault_of_readString h
  split at h
  · exact fault_of_readChunk h
  split at h
  · cases h
  split at h
  · rename_i hc
    exact hc ▸ fault_of_readClosingBrace h
  split at h
  · cases h
  split at h
  · rename_i hc
    exact hc.1 ▸ fault_of_readRegex h
  · unfold readPunctuator at h
    split at h <;> cases h
    simp

/-- What cannot be read is at fault from some place of the text on. -/
theorem fault_of_next (h : next ctx cs = .error f) : f.lead ++ f.text <+: cs := by
  unfold next at h
  split at h
  · rename_i hgap
    cases h
    rw [Trivia.fault_of_gap hgap]
  · cases h
  · rename_i gap c more hgap
    split at h
    · rename_i hread
      cases h
      rw [← Trivia.gap_append hgap, Fault.after, List.append_assoc, List.prefix_append_right_inj]
      exact fault_of_read hread
    · cases h

theorem fault_of_lexemesFrom (h : lexemesFrom ctx cs = .error f) : f.lead ++ f.text <+: cs := by
  fun_induction lexemesFrom ctx cs generalizing f with
  | case1 ctx cs f' hnext =>
    cases h
    exact fault_of_next hnext
  | case2 => cases h
  | case3 ctx cs l ctx' rest hnext f' hf ih =>
    cases h
    rw [← next_source hnext, Fault.after, List.append_assoc, List.prefix_append_right_inj]
    exact ih hf
  | case4 => cases h

end Lexeme

end JobBundler
