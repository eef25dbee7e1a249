import JobBundler.Token.Basic
import JobBundler.Token.Fault

/-! # Syntax errors

Why a source has no outline, and where. -/

namespace JobBundler

/-- What a syntax error asks for in place of the token it met. -/
inductive Expectation where
  /-- A particular word. -/
  | word (text : String)
  | className
  | classBody
  | decoratorName
  | closingParen
  | importClause
  | namespaceBinding
  | importSpecifier
  | localBinding
  | commaOrBrace
  | moduleSpecifier
  | statement
  | closingDelimiter
  deriving DecidableEq, Repr

def Expectation.describe : Expectation → String
  | word text => s!"'{text}'"
  | className => "class name"
  | classBody => "class body"
  | decoratorName => "decorator name"
  | closingParen => "')'"
  | importClause => "import clause"
  | namespaceBinding => "namespace binding"
  | importSpecifier => "import specifier"
  | localBinding => "local binding"
  | commaOrBrace => "',' or '\x7d'"
  | moduleSpecifier => "module specifier"
  | statement => "statement"
  | closingDelimiter => "closing delimiter"

inductive SyntaxError where
  /-- The source is not a sequence of tokens. -/
  | lexical (e : LexicalError)
  | unexpectedToken (found : Token) (expected : Expectation)
  | unexpectedEnd (expected : Expectation)
  /-- Decorators, the first of them at `span`, without a class after them. -/
  | danglingDecorator (span : Span)
  deriving DecidableEq, Repr

namespace SyntaxError

def message : SyntaxError → String
  | lexical e => s!"lexer error: {e.message}"
  | unexpectedToken found expected =>
    s!"unexpected token {found.kind.describe} at position {found.span.start}, " ++
      s!"expected {expected.describe}"
  | unexpectedEnd expected => s!"unexpected end of input, expected {expected.describe}"
  | danglingDecorator span =>
    s!"decorator at position {span.start} is not attached to a class declaration"

/-- The place of the error; the end of the source has none. -/
def span? : SyntaxError → Option Span
  | lexical e => some e.span
  | unexpectedToken found _ => some found.span
  | unexpectedEnd _ => none
  | danglingDecorator span => some span

/-- The last character of a source, where an error at its end is shown. -/
def lastChar (source : String) : Span :=
  let stop := Text.byteLength source.toList
  ⟨stop - (source.toList.getLast?.map Char.utf8Size).getD 0, stop⟩

def diagnostic (e : SyntaxError) (source : String) : String :=
  Source.diagnostic source (e.span?.getD (lastChar source)) e.message

end SyntaxError
end JobBundler
