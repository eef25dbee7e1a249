import JobBundler.Source.Diagnostic

/-! # Lexical errors

Why a text is not a sequence of tokens, and where. -/

namespace JobBundler

inductive LexicalCause where
  /-- A character that starts no token. -/
  | unexpectedChar (c : Char)
  /-- A string literal without its closing quote on the same line. -/
  | unterminatedString
  /-- A template literal without its closing backtick. -/
  | unterminatedTemplate
  /-- A block comment without its end. -/
  | unterminatedComment
  /-- A regular expression without its closing slash on the same line. -/
  | unterminatedRegex
  /-- A closing brace where none is open. -/
  | unmatchedBrace
  deriving DecidableEq, Repr

structure LexicalError where
  cause : LexicalCause
  span : Span
  deriving DecidableEq, Repr

namespace LexicalError

def message (e : LexicalError) : String :=
  let what := match e.cause with
    | .unexpectedChar c => s!"unexpected character '{c}'"
    | .unterminatedString => "unterminated string literal"
    | .unterminatedTemplate => "unterminated template literal"
    | .unterminatedComment => "unterminated block comment"
    | .unterminatedRegex => "unterminated regular expression"
    | .unmatchedBrace => "unmatched '\x7d'"
  s!"{what} at position {e.span.start}"

def diagnostic (e : LexicalError) (source : String) : String :=
  Source.diagnostic source e.span e.message

end LexicalError
end JobBundler
