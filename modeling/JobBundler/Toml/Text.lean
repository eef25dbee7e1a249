import JobBundler.Token.Escape

/-! # Strings in TOML texts

A string is written on one line or on several, and with escapes between double quotes or as it is
between single ones. A line feed is the only line break in the text of a string, however its lines
are ended. -/

namespace JobBundler.Toml

/-- Whether the character may stand for itself: any but control characters, save for the tab. -/
def isPlain (c : Char) : Bool :=
  c == '\t' || (0x20 ≤ c.toNat && c != '\x7f')

def isSpace (c : Char) : Bool :=
  c == ' ' || c == '\t'

/-- The character that an escape of one letter stands for. -/
def shortEscape? : Char → Option Char
  | 'b' => some '\x08'
  | 't' => some '\t'
  | 'n' => some '\n'
  | 'f' => some '\x0c'
  | 'r' => some '\r'
  | '"' => some '"'
  | '\\' => some '\\'
  | _ => none

/-- The character with the code that the digits spell. -/
def hexEscape? (ds : List Char) : Option Char :=
  if ds.all Token.isHexDigit then Token.charOfCode? (Token.ofHexDigits ds) else none

/-- A text in front of what has been read of a string. -/
def prepend (cs : List Char) (r : Option (List Char × List Char)) :
    Option (List Char × List Char) :=
  r.map fun (text, rest) => (cs ++ text, rest)

/-- A character, if it is one, in front of what has been read of a string. -/
def prependEscape (c : Option Char) (r : Option (List Char × List Char)) :
    Option (List Char × List Char) :=
  match c with
  | some c => prepend [c] r
  | none => none

/-- The text of a string with escapes on one line, and what stands after its closing quote. -/
def basic? : List Char → Option (List Char × List Char)
  | [] => none
  | '"' :: cs => some ([], cs)
  | '\\' :: 'u' :: a :: b :: c :: d :: cs => prependEscape (hexEscape? [a, b, c, d]) (basic? cs)
  | '\\' :: 'U' :: a :: b :: c :: d :: e :: f :: g :: h :: cs =>
    prependEscape (hexEscape? [a, b, c, d, e, f, g, h]) (basic? cs)
  | '\\' :: c :: cs => prependEscape (shortEscape? c) (basic? cs)
  | c :: cs => if isPlain c && c != '\\' then prepend [c] (basic? cs) else none

/-- The text of a string without escapes on one line, and what stands after its closing quote. -/
def literal? : List Char → Option (List Char × List Char)
  | [] => none
  | c :: cs =>
    if c = '\'' then some ([], cs)
    else if isPlain c then prepend [c] (literal? cs)
    else none

/-- Where a string of several lines is read: in its text, or after a backslash that joins lines. -/
inductive Joint where
  | none
  /-- Between the backslash and the end of its line. -/
  | inLine
  /-- In the white space after that line. -/
  | afterLine
  deriving DecidableEq, Repr

/-- The text of a string with escapes on several lines, and what stands after its closing quotes. Up
to two quotes before these belong to the text. -/
def basicLines? : Joint → List Char → Option (List Char × List Char)
  | _, [] => none
  | .inLine, '\n' :: cs | .inLine, '\r' :: '\n' :: cs => basicLines? .afterLine cs
  | .inLine, c :: cs => if isSpace c then basicLines? .inLine cs else none
  | _, '"' :: '"' :: '"' :: cs =>
    match cs with
    | '"' :: '"' :: cs => some (['"', '"'], cs)
    | '"' :: cs => some (['"'], cs)
    | cs => some ([], cs)
  | _, '\\' :: 'u' :: a :: b :: c :: d :: cs =>
    prependEscape (hexEscape? [a, b, c, d]) (basicLines? .none cs)
  | _, '\\' :: 'U' :: a :: b :: c :: d :: e :: f :: g :: h :: cs =>
    prependEscape (hexEscape? [a, b, c, d, e, f, g, h]) (basicLines? .none cs)
  | _, '\\' :: '\n' :: cs | _, '\\' :: '\r' :: '\n' :: cs => basicLines? .afterLine cs
  | _, '\\' :: c :: cs =>
    if isSpace c then basicLines? .inLine cs
    else prependEscape (shortEscape? c) (basicLines? .none cs)
  | j, '\n' :: cs | j, '\r' :: '\n' :: cs =>
    if j = .afterLine then basicLines? .afterLine cs else prepend ['\n'] (basicLines? .none cs)
  | j, c :: cs =>
    if j = .afterLine ∧ isSpace c then basicLines? .afterLine cs
    else if isPlain c && c != '\\' then prepend [c] (basicLines? .none cs)
    else none

/-- The text of a string without escapes on several lines, and what stands after its closing quotes.
Up to two quotes before these belong to the text. -/
def literalLines? : List Char → Option (List Char × List Char)
  | [] => none
  | '\'' :: '\'' :: '\'' :: cs =>
    match cs with
    | '\'' :: '\'' :: cs => some (['\'', '\''], cs)
    | '\'' :: cs => some (['\''], cs)
    | cs => some ([], cs)
  | '\n' :: cs | '\r' :: '\n' :: cs => prepend ['\n'] (literalLines? cs)
  | c :: cs => if isPlain c then prepend [c] (literalLines? cs) else none

/-! ## What is left is shorter -/

theorem of_prepend_eq_some {cs text rest : List Char} {r : Option (List Char × List Char)}
    (h : prepend cs r = some (text, rest)) : ∃ t, r = some (t, rest) := by
  obtain ⟨⟨t, s⟩, hr, heq⟩ := Option.map_eq_some_iff.1 h
  cases heq
  exact ⟨t, hr⟩

theorem of_prependEscape_eq_some {c : Option Char} {text rest : List Char}
    {r : Option (List Char × List Char)} (h : prependEscape c r = some (text, rest)) :
    ∃ t, r = some (t, rest) := by
  cases c with
  | none => cases h
  | some c => exact of_prepend_eq_some h

theorem basic?_length_lt {cs text rest : List Char} (h : basic? cs = some (text, rest)) :
    rest.length < cs.length := by
  fun_induction basic? cs generalizing text <;>
    simp only [List.length_cons, List.length_nil] <;>
    grind [of_prepend_eq_some, of_prependEscape_eq_some]

theorem literal?_length_lt {cs text rest : List Char} (h : literal? cs = some (text, rest)) :
    rest.length < cs.length := by
  fun_induction literal? cs generalizing text <;> grind [of_prepend_eq_some]

theorem basicLines?_length_lt {j : Joint} {cs text rest : List Char}
    (h : basicLines? j cs = some (text, rest)) : rest.length < cs.length := by
  fun_induction basicLines? j cs generalizing text <;>
    simp only [List.length_cons, List.length_nil] <;>
    grind [of_prepend_eq_some, of_prependEscape_eq_some]

theorem literalLines?_length_lt {cs text rest : List Char}
    (h : literalLines? cs = some (text, rest)) : rest.length < cs.length := by
  fun_induction literalLines? cs generalizing text <;> grind [of_prepend_eq_some]

end JobBundler.Toml
