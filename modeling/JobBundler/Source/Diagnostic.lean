import JobBundler.Source.Span

/-! # Diagnostics

A diagnostic shows a message, the line of source text it is about, and a run of carets under the
place. Lines are counted from one and end at a line feed; columns are counted in characters from
zero and shown from one. -/

namespace JobBundler.Source

/-- A place in source text: its line number, its column, and the text of the line. -/
structure Location where
  line : Nat
  column : Nat
  content : String
  deriving DecidableEq, Repr

/-- The characters after the last line feed. -/
def lastLine (cs : List Char) : List Char :=
  (cs.reverse.takeWhile (· ≠ '\n')).reverse

/-- The text without the carriage returns at its end. -/
def dropReturns (cs : List Char) : List Char :=
  (cs.reverse.dropWhile (· = '\r')).reverse

/-- The source text before and after byte `offset`. An offset past the end counts as the end, and
so does one inside a character. -/
def splitAt (source : List Char) (offset : Nat) : List Char × List Char :=
  (Text.splitAtByte? source (min offset (Text.byteLength source))).getD (source, [])

/-- The place where a span starts. -/
def locate (source : String) (span : Span) : Location :=
  let (before, after) := splitAt source.toList span.start
  let line := lastLine before
  { line := before.count '\n' + 1
    column := line.length
    content := String.ofList (dropReturns (line ++ after.takeWhile (· ≠ '\n'))) }

/-- The number of carets under a span of `length` bytes that starts at `place`: at least one, and
none beyond the end of the line. -/
def caretCount (place : Location) (length : Nat) : Nat :=
  max 1 (min length (max 1 (place.content.length - place.column)))

/-- A number right-aligned in three columns. -/
def lineLabel (n : Nat) : String :=
  let digits := toString n
  String.ofList (List.replicate (3 - digits.length) ' ') ++ digits

/-- The message, the place, the line and the carets, one below the other. -/
def diagnostic (source : String) (span : Span) (message : String) : String :=
  let place := locate source span
  let carets := String.ofList (List.replicate (caretCount place span.length) '^')
  let indent := String.ofList (List.replicate place.column ' ')
  s!"error: {message}\n  --> line {place.line}, column {place.column + 1}\n   |\n" ++
    s!"{lineLabel place.line} | {place.content}\n   | {indent}{carets}"

end JobBundler.Source
