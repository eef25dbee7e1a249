import JobBundler.Index
import JobBundler.Token.Lexer

/-! # Names that a text refers to

Which of some names does a piece of source text use? The lexical strategy reads the tokens and
counts the identifiers that stand where an expression or a type may refer to a binding; the textual
one looks for the names as whole words anywhere in the text. -/

namespace JobBundler

inductive ReferenceStrategy where
  | lexical
  | textual
  deriving DecidableEq, Repr

def ReferenceStrategy.describe : ReferenceStrategy → String
  | lexical => "lexical"
  | textual => "textual"

namespace Reference

/-- Whether an identifier between these two tokens is the name of a member or the key of an
object's entry, and so refers to nothing. -/
def isPropertyName (previous next : Option TokenKind) : Bool :=
  previous == some .dot || previous == some .optionalChain ||
    ((previous == some (.opening .brace) || previous == some .comma) && next == some .colon)

/-- The identifiers among the tokens that refer to a binding, where `previous` is the token before
them. -/
def ofTokens : (previous : Option TokenKind) → List Token → List String
  | _, [] => []
  | previous, t :: ts =>
    let more := ofTokens (some t.kind) ts
    match t.name? with
    | some name =>
      if isReservedWord name || isPropertyName previous (ts.head?.map (·.kind)) then more
      else name :: more
    | none => more

/-- Every name that the text refers to. -/
def lexical (text : String) : Except LexicalError NameSet :=
  (tokenize text).map fun ts => .ofList (ofTokens none ts)

/-- Whether `c` belongs to a word: an ASCII letter or digit, an underscore or a dollar sign. -/
def isWordChar (c : Char) : Bool :=
  c.isAlphanum || c == '_' || c == '$'

/-- Whether the text starts with `word` and goes on with no word character. -/
def startsWithWord (word cs : List Char) : Bool :=
  word.isPrefixOf cs && !(cs.drop word.length).head?.any isWordChar

/-- Whether `word` stands in the text with no word character on either side; `previous` is the
character before the text. -/
def mentionsAfter (word : List Char) : (previous : Option Char) → List Char → Bool
  | previous, [] => !previous.any isWordChar && startsWithWord word []
  | previous, c :: cs =>
    (!previous.any isWordChar && startsWithWord word (c :: cs)) || mentionsAfter word (some c) cs

/-- Whether the text mentions `word` as a whole word. -/
def mentions (text word : String) : Bool :=
  mentionsAfter word.toList none text.toList

end Reference

/-- Those of the candidates that the text refers to. -/
def referencedNames (strategy : ReferenceStrategy) (text : String) (candidates : List String) :
    Except LexicalError NameSet :=
  match strategy with
  | .lexical => do
    let used ← Reference.lexical text
    return .ofList (candidates.filter used.contains)
  | .textual => .ok (.ofList (candidates.filter (Reference.mentions text)))

end JobBundler
