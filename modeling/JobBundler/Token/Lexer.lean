import JobBundler.Token.Lexeme

/-! # The tokens of a source

A source is read as a sequence of lexemes and a last gap (`Lexing`), whose texts put together are
the source, as `lexemesFrom_source` says. `tokenize` places the lexemes by the byte lengths of the
texts before them. -/

namespace JobBundler

namespace Lexeme

/-- What stands at the front of a text. -/
inductive Step where
  /-- Only a gap. -/
  | finished (gap : List Char)
  /-- A lexeme, with the context and the text after it. -/
  | lexeme (l : Lexeme) (context : Context) (rest : List Char)

/-- Reads the gap at the front of the text and the token after it. -/
def next (ctx : Context) (cs : List Char) : Except Fault Step :=
  match Trivia.gap cs with
  | .error f => .error f
  | .ok (gap, []) => .ok (.finished gap)
  | .ok (gap, c :: rest) =>
    match read ctx gap.isEmpty c rest with
    | .error f => .error (f.after gap)
    | .ok r => .ok (.lexeme ⟨gap, r.text, r.kind⟩ r.context r.rest)

theorem next_source {ctx ctx' : Context} {cs rest : List Char} {l : Lexeme}
    (h : next ctx cs = .ok (.lexeme l ctx' rest)) : l.source ++ rest = cs := by
  unfold next at h
  split at h
  · cases h
  · cases h
  · rename_i gap c more hg
    split at h
    · cases h
    · rename_i r hr
      cases h
      simp [source, read_append hr, Trivia.gap_append hg]

theorem next_ne_nil {ctx ctx' : Context} {cs rest : List Char} {l : Lexeme}
    (h : next ctx cs = .ok (.lexeme l ctx' rest)) : l.text ≠ [] := by
  unfold next at h
  split at h
  · cases h
  · cases h
  · split at h
    · cases h
    · rename_i r hr
      cases h
      exact read_ne_nil hr

theorem next_length_lt {ctx ctx' : Context} {cs rest : List Char} {l : Lexeme}
    (h : next ctx cs = .ok (.lexeme l ctx' rest)) : rest.length < cs.length := by
  have hs := congrArg List.length (next_source h)
  have hl := List.length_pos_iff.2 (next_ne_nil h)
  simp only [source, List.length_append] at hs
  omega

end Lexeme

/-- A text read to its end. -/
structure Lexing where
  lexemes : List Lexeme
  /-- The gap after the last token. -/
  trailing : List Char
  /-- The context at the end. -/
  context : Context

namespace Lexing

/-- The text that was read. -/
def source (x : Lexing) : List Char :=
  x.lexemes.flatMap Lexeme.source ++ x.trailing

/-- The same lexemes after `front`, which belongs to the first gap. -/
def prepend (front : List Char) (x : Lexing) : Lexing :=
  match x.lexemes with
  | [] => { x with trailing := front ++ x.trailing }
  | l :: ls => { x with lexemes := { l with gap := front ++ l.gap } :: ls }

end Lexing

/-- All lexemes of a text that is read in the context `ctx`. -/
def lexemesFrom (ctx : Context) (cs : List Char) : Except Fault Lexing :=
  match _h : Lexeme.next ctx cs with
  | .error f => .error f
  | .ok (.finished gap) => .ok ⟨[], gap, ctx⟩
  | .ok (.lexeme l ctx' rest) =>
    match lexemesFrom ctx' rest with
    | .error f => .error (f.after l.source)
    | .ok x => .ok { x with lexemes := l :: x.lexemes }
termination_by cs.length
decreasing_by exact Lexeme.next_length_lt _h

/-- The texts of the lexemes and the last gap are the text that was read. -/
theorem lexemesFrom_source {ctx : Context} {cs : List Char} {x : Lexing}
    (h : lexemesFrom ctx cs = .ok x) : x.source = cs := by
  fun_induction lexemesFrom ctx cs generalizing x with
  | case1 => cases h
  | case2 ctx cs gap hn =>
    cases h
    unfold Lexeme.next at hn
    split at hn
    · cases hn
    · rename_i hg
      cases hn
      simpa [Lexing.source] using Trivia.gap_append hg
    · split at hn <;> cases hn
  | case3 => cases h
  | case4 ctx cs l ctx' rest hn x' hx ih =>
    cases h
    rw [← Lexeme.next_source hn, ← ih hx]
    simp [Lexing.source]

/-- The `#!` line at the front of a text, without its end, and the text after it. -/
def hashbang (cs : List Char) : List Char × List Char :=
  match cs with
  | '#' :: '!' :: _ => cs.span (· ≠ '\n')
  | _ => ([], cs)

/-- The longest list of lexemes before the last template chunk, and the lexemes from it on. -/
def splitAtLastChunk : List Lexeme → Option (List Lexeme × List Lexeme)
  | [] => none
  | l :: ls =>
    match splitAtLastChunk ls, l.kind with
    | some (before, after), _ => some (l :: before, after)
    | none, .template _ => some ([], l :: ls)
    | none, _ => none

/-- The fault of a text that ends inside a substitution: the text from the last template chunk on
is at fault. -/
def openSubstitution (x : Lexing) : Fault :=
  match splitAtLastChunk x.lexemes with
  | some (before, l :: ls) =>
    { lead := before.flatMap Lexeme.source ++ l.gap
      text := l.text ++ ls.flatMap Lexeme.source ++ x.trailing
      cause := .unterminatedTemplate }
  | _ => ⟨[], x.source, .unterminatedTemplate⟩

/-- The lexemes of a source. Every substitution has to be closed; other brackets may stay open. -/
def Lexing.ofSource (cs : List Char) : Except Fault Lexing :=
  let (bang, rest) := hashbang cs
  match lexemesFrom .initial rest with
  | .error f => .error (f.after bang)
  | .ok x =>
    let x := x.prepend bang
    if x.context.substitutions.isEmpty then .ok x else .error (openSubstitution x)

namespace Fault

/-- The fault as an error of the source it was met in. -/
def toError (f : Fault) : LexicalError :=
  let start := Text.byteLength f.lead
  { cause := f.cause, span := ⟨start, start + Text.byteLength f.text⟩ }

end Fault

namespace Token

/-- The tokens of lexemes that stand at byte `offset` of a source. -/
def place : (offset : Nat) → List Lexeme → List Token
  | _, [] => []
  | offset, l :: ls =>
    let start := offset + Text.byteLength l.gap
    let stop := start + Text.byteLength l.text
    { kind := l.kind, span := ⟨start, stop⟩
      newlineBefore := l.gap.any Trivia.isLineTerminator } :: place stop ls

end Token

/-- The tokens of a source. -/
def tokenize (source : String) : Except LexicalError (List Token) :=
  match Lexing.ofSource source.toList with
  | .error f => .error f.toError
  | .ok x => .ok (Token.place 0 x.lexemes)

end JobBundler
