import JobBundler.Token.Escape
import JobBundler.Token.Literal
import JobBundler.Token.Punctuator
import JobBundler.Token.Trivia

/-! # Lexemes

A lexeme is a token with the text it was read from and the gap before it. It has no position, so
what is read from a piece of text does not depend on where the piece stands; `Token.Lexer` places
lexemes in a source. Reading depends on the text from the lexeme on and on a `Context`. A token is
read in one of the ways of `Lexeme.ReadsAs`. The main statement is `Lexeme.read_append`: the text of
a token and the text after it are the text it was read from. -/

namespace JobBundler

/-- What the reading of a token depends on besides the text from the token on. -/
structure Context where
  /-- How many braces are open outside template text. -/
  depth : Nat
  /-- The depths at which the open substitutions started, innermost first. -/
  substitutions : List Nat
  /-- Whether a slash starts a regular expression here. -/
  regexAllowed : Bool
  deriving DecidableEq, Repr

namespace Context

/-- The context at the start of a text. -/
def initial : Context :=
  { depth := 0, substitutions := [], regexAllowed := true }

/-- The context after a token. A `!` glued to the end of an operand ends that operand, like a
closing bracket. -/
def after (ctx : Context) (glued : Bool) (kind : TokenKind) : Context :=
  let assertion := kind == .operator "!" && glued && !ctx.regexAllowed
  { ctx with regexAllowed := !assertion && kind.allowsRegexAfter }

end Context

structure Lexeme where
  /-- The white space and comments before the token. -/
  gap : List Char
  text : List Char
  kind : TokenKind
  deriving DecidableEq, Repr

namespace Lexeme

/-- The gap and the text of the token. -/
def source (l : Lexeme) : List Char :=
  l.gap ++ l.text

/-- A token read from the front of a text. -/
structure Reading where
  kind : TokenKind
  text : List Char
  /-- The context after the token. -/
  context : Context
  /-- The text after the token. -/
  rest : List Char

/-- The chunk of a template literal after the character `opener`, a backtick or the brace that
closes a substitution. -/
def readChunk (ctx : Context) (opener : Char) (cs : List Char) : Except Fault Reading :=
  match Literal.templateChunk? cs with
  | none => .error ⟨[], opener :: cs, .unterminatedTemplate⟩
  | some (text, .backtick, rest) => .ok
    { kind := .template (String.ofList text)
      text := opener :: (text ++ Literal.ChunkEnd.backtick.text)
      context := { ctx with regexAllowed := false }
      rest }
  | some (text, .substitution, rest) => .ok
    { kind := .template (String.ofList text)
      text := opener :: (text ++ Literal.ChunkEnd.substitution.text)
      context := { ctx with
        substitutions := ctx.depth :: ctx.substitutions, regexAllowed := true }
      rest }

/-- The string literal after the opening quote. -/
def readString (ctx : Context) (quote : Char) (cs : List Char) : Except Fault Reading :=
  match Literal.stringBody quote cs with
  | (body, none) => .error ⟨[], quote :: body, .unterminatedString⟩
  | (body, some rest) =>
    let kind := .str (String.ofList (Token.unescape body))
    .ok { kind, text := quote :: (body ++ [quote]), context := ctx.after false kind, rest }

/-- The regular expression after the opening slash. -/
def readRegex (ctx : Context) (cs : List Char) : Except Fault Reading :=
  match Literal.regexBody false cs with
  | (body, none) => .error ⟨[], '/' :: body, .unterminatedRegex⟩
  | (body, some rest) =>
    let text := '/' :: (body ++ rest.takeWhile Literal.isNameContinue)
    let kind := .regex (String.ofList text)
    .ok { kind, text, context := ctx.after false kind
          rest := rest.dropWhile Literal.isNameContinue }

/-- The brace that closes a block or a substitution. -/
def readClosingBrace (ctx : Context) (cs : List Char) : Except Fault Reading :=
  if ctx.substitutions.head? = some ctx.depth then
    readChunk { ctx with substitutions := ctx.substitutions.tail } '}' cs
  else if ctx.depth = 0 then .error ⟨[], ['}'], .unmatchedBrace⟩
  else
    let kind := .closing .brace
    .ok { kind, text := ['}'], rest := cs
          context := { ctx.after false kind with depth := ctx.depth - 1 } }

/-- The punctuator at the front of the text. -/
def readPunctuator (ctx : Context) (glued : Bool) (c : Char) (cs : List Char) :
    Except Fault Reading :=
  match Punctuator.front? (c :: cs) with
  | none => .error ⟨[], [c], .unexpectedChar c⟩
  | some text =>
    let kind := Punctuator.kind text
    .ok { kind, text, context := ctx.after glued kind, rest := (c :: cs).drop text.length }

/-- The token that starts with `c`; `glued` says that no gap stands before it. -/
def read (ctx : Context) (glued : Bool) (c : Char) (cs : List Char) : Except Fault Reading :=
  if Literal.isNameStart c then
    let text := c :: cs.takeWhile Literal.isNameContinue
    let kind := .ident (String.ofList text)
    .ok { kind, text, context := ctx.after glued kind
          rest := cs.dropWhile Literal.isNameContinue }
  else if c.isDigit || (c == '.' && cs.head?.any Char.isDigit) then
    let (text, rest) := Literal.number (c :: cs)
    let kind := .number (String.ofList text)
    .ok { kind, text, context := ctx.after glued kind, rest }
  else if c = '"' ∨ c = '\'' then readString ctx c cs
  else if c = '\x60' then readChunk ctx c cs
  else if c = '{' then
    let kind := .opening .brace
    .ok { kind, text := [c], rest := cs
          context := { ctx.after glued kind with depth := ctx.depth + 1 } }
  else if c = '}' then readClosingBrace ctx cs
  else if c = '#' ∧ cs.head?.any Literal.isNameStart then
    let name := cs.takeWhile Literal.isNameContinue
    let kind := .privateName (String.ofList name)
    .ok { kind, text := c :: name, context := ctx.after glued kind
          rest := cs.dropWhile Literal.isNameContinue }
  else if c = '/' ∧ ctx.regexAllowed then readRegex ctx cs
  else readPunctuator ctx glued c cs

/-! ## The ways to read a token -/

/-- The context after a chunk of a template literal with this end. -/
def afterChunk (ctx : Context) : Literal.ChunkEnd → Context
  | .backtick => { ctx with regexAllowed := false }
  | .substitution =>
    { ctx with substitutions := ctx.depth :: ctx.substitutions, regexAllowed := true }

/-- The ways to read a token that starts with `c` and that `cs` goes on with. -/
inductive ReadsAs (ctx : Context) (glued : Bool) (c : Char) (cs : List Char) : Reading → Prop
  | name {text : List Char} (hc : Literal.isNameStart c)
    (htext : text = c :: cs.takeWhile Literal.isNameContinue) :
    ReadsAs ctx glued c cs
      { kind := .ident (String.ofList text), text
        context := ctx.after glued (.ident (String.ofList text))
        rest := cs.dropWhile Literal.isNameContinue }
  | number {text rest : List Char} (hc : c.isDigit || (c == '.' && cs.head?.any Char.isDigit))
    (hsplit : Literal.number (c :: cs) = (text, rest)) :
    ReadsAs ctx glued c cs
      { kind := .number (String.ofList text), text
        context := ctx.after glued (.number (String.ofList text)), rest }
  | string {body rest : List Char} (hc : c = '"' ∨ c = '\'')
    (hbody : Literal.stringBody c cs = (body, some rest)) :
    ReadsAs ctx glued c cs
      { kind := .str (String.ofList (Token.unescape body)), text := c :: (body ++ [c])
        context := ctx.after false (.str (String.ofList (Token.unescape body))), rest }
  | chunk {text rest : List Char} {chunkEnd : Literal.ChunkEnd} (hc : c = '\x60')
    (hchunk : Literal.templateChunk? cs = some (text, chunkEnd, rest)) :
    ReadsAs ctx glued c cs
      { kind := .template (String.ofList text), text := c :: (text ++ chunkEnd.text)
        context := afterChunk ctx chunkEnd, rest }
  | nextChunk {text rest : List Char} {chunkEnd : Literal.ChunkEnd} (hc : c = '}')
    (hs : ctx.substitutions.head? = some ctx.depth)
    (hchunk : Literal.templateChunk? cs = some (text, chunkEnd, rest)) :
    ReadsAs ctx glued c cs
      { kind := .template (String.ofList text), text := c :: (text ++ chunkEnd.text)
        context := afterChunk { ctx with substitutions := ctx.substitutions.tail } chunkEnd, rest }
  | openingBrace (hc : c = '{') :
    ReadsAs ctx glued c cs
      { kind := .opening .brace, text := [c], rest := cs
        context := { ctx.after glued (.opening .brace) with depth := ctx.depth + 1 } }
  | closingBrace (hc : c = '}') (hs : ctx.substitutions.head? ≠ some ctx.depth)
    (hd : ctx.depth ≠ 0) :
    ReadsAs ctx glued c cs
      { kind := .closing .brace, text := [c], rest := cs
        context := { ctx.after false (.closing .brace) with depth := ctx.depth - 1 } }
  | privateName {name : List Char} (hc : c = '#') (hstart : cs.head?.any Literal.isNameStart)
    (hname : name = cs.takeWhile Literal.isNameContinue) :
    ReadsAs ctx glued c cs
      { kind := .privateName (String.ofList name), text := c :: name
        context := ctx.after glued (.privateName (String.ofList name))
        rest := cs.dropWhile Literal.isNameContinue }
  | regex {body rest text : List Char} (hc : c = '/') (hallowed : ctx.regexAllowed)
    (hbody : Literal.regexBody false cs = (body, some rest))
    (htext : text = c :: (body ++ rest.takeWhile Literal.isNameContinue)) :
    ReadsAs ctx glued c cs
      { kind := .regex (String.ofList text), text
        context := ctx.after false (.regex (String.ofList text))
        rest := rest.dropWhile Literal.isNameContinue }
  | punctuator {text : List Char} {kind : TokenKind}
    (hfront : Punctuator.front? (c :: cs) = some text) (hkind : Punctuator.kind text = kind) :
    ReadsAs ctx glued c cs
      { kind, text, context := ctx.after glued kind, rest := (c :: cs).drop text.length }

variable {ctx : Context} {glued : Bool} {c : Char} {cs : List Char} {r : Reading}

theorem readChunk_eq_ok (h : readChunk ctx c cs = .ok r) :
    ∃ text chunkEnd rest, Literal.templateChunk? cs = some (text, chunkEnd, rest) ∧
      r = { kind := .template (String.ofList text), text := c :: (text ++ chunkEnd.text)
            context := afterChunk ctx chunkEnd, rest } := by
  unfold readChunk at h
  split at h
  · cases h
  all_goals
    rename_i hchunk
    cases h
    exact ⟨_, _, _, hchunk, rfl⟩

theorem read_eq_ok (h : read ctx glued c cs = .ok r) : ReadsAs ctx glued c cs r := by
  unfold read at h
  split at h
  · cases h
    exact .name ‹_› rfl
  split at h
  · cases h
    exact .number ‹_› rfl
  split at h
  · unfold readString at h
    split at h <;> cases h
    exact .string ‹_› ‹_›
  split at h
  · obtain ⟨text, chunkEnd, rest, hchunk, rfl⟩ := readChunk_eq_ok h
    exact .chunk ‹_› hchunk
  split at h
  · cases h
    exact .openingBrace ‹_›
  split at h
  · rename_i hc
    subst hc
    unfold readClosingBrace at h
    split at h
    · obtain ⟨text, chunkEnd, rest, hchunk, rfl⟩ := readChunk_eq_ok h
      exact .nextChunk rfl ‹_› hchunk
    · split at h <;> cases h
      exact .closingBrace rfl ‹_› ‹_›
  split at h
  · rename_i hc
    cases h
    exact .privateName hc.1 hc.2 rfl
  split at h
  · rename_i hc
    obtain ⟨rfl, hallowed⟩ := hc
    unfold readRegex at h
    split at h <;> cases h
    exact .regex rfl hallowed ‹_› rfl
  · unfold readPunctuator at h
    split at h <;> cases h
    exact .punctuator ‹_› rfl

/-- Nothing is lost: the text of the token and the text after it are the text it was read from. -/
theorem read_append (h : read ctx glued c cs = .ok r) : r.text ++ r.rest = c :: cs := by
  cases read_eq_ok h with
  | name _ htext => simp [htext, List.takeWhile_append_dropWhile]
  | number _ hsplit => simpa [hsplit] using Literal.number_append (c :: cs)
  | string _ hbody =>
    have happend := Literal.stringBody_append (congrArg Prod.snd hbody)
    rw [hbody] at happend
    simpa using happend
  | chunk _ hchunk | nextChunk _ _ hchunk => simpa using Literal.templateChunk?_append hchunk
  | openingBrace | closingBrace => rfl
  | privateName _ _ hname => simp [hname, List.takeWhile_append_dropWhile]
  | regex _ _ hbody htext =>
    have happend := Literal.regexBody_append (congrArg Prod.snd hbody)
    rw [hbody] at happend
    simpa [htext, List.takeWhile_append_dropWhile] using happend
  | punctuator hfront =>
    obtain ⟨rest, hrest⟩ := Punctuator.front?_isPrefix hfront
    simp [← hrest]

/-- A token has text. -/
theorem read_ne_nil (h : read ctx glued c cs = .ok r) : r.text ≠ [] := by
  cases read_eq_ok h with
  | number hc hsplit =>
    have hstart : c.isDigit || c == '.' := by
      simp only [Bool.or_eq_true, Bool.and_eq_true] at hc ⊢
      exact hc.imp_right And.left
    have hne := Literal.number_ne_nil cs hstart
    rwa [hsplit] at hne
  | punctuator hfront => exact Punctuator.front?_ne_nil hfront
  | name _ htext | regex _ _ _ htext => simp [htext]
  | string | chunk | nextChunk | openingBrace | closingBrace | privateName => exact List.cons_ne_nil _ _

end Lexeme
end JobBundler
