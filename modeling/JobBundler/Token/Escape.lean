/-! # Escapes in string literals

The value of a string literal's body. A malformed `\x` or `\u` escape stands for its letter and the
hexadecimal digits read; any other escaped character that has no meaning of its own stands for
itself. -/

namespace JobBundler.Token

/-- The value of a hexadecimal digit. -/
def hexValue (c : Char) : Nat :=
  if c.isDigit then c.toNat - '0'.toNat
  else if c.toNat < 'a'.toNat then c.toNat - 'A'.toNat + 10
  else c.toNat - 'a'.toNat + 10

def isHexDigit (c : Char) : Bool :=
  c.isDigit || ('a' ≤ c && c ≤ 'f') || ('A' ≤ c && c ≤ 'F')

/-- The longest run of at most `limit` hexadecimal digits at the front. -/
def hexDigits (limit : Nat) (cs : List Char) : List Char :=
  (cs.take limit).takeWhile isHexDigit

/-- The number that hexadecimal digits spell. -/
def ofHexDigits (digits : List Char) : Nat :=
  digits.foldl (fun n c => n * 16 + hexValue c) 0

/-- The character with this code point; surrogates and numbers past the last one have none. -/
def charOfCode? (n : Nat) : Option Char :=
  if h : n.isValidChar then some (Char.ofNatAux n h) else none

/-- The character whose code point the digits spell, or the letter `u` and the digits. -/
def codePoint (digits : List Char) : List Char :=
  match digits with
  | [] => ['u']
  | _ => match charOfCode? (ofHexDigits digits) with
    | some c => [c]
    | none => 'u' :: digits

/-- What an escape stands for, from the text after its backslash, and how many characters of that
text belong to it. -/
def escape : List Char → List Char × Nat
  | [] => ([], 0)
  | 'n' :: _ => (['\n'], 1)
  | 't' :: _ => (['\t'], 1)
  | 'r' :: _ => (['\r'], 1)
  | 'b' :: _ => (['\x08'], 1)
  | 'f' :: _ => (['\x0c'], 1)
  | 'v' :: _ => (['\x0b'], 1)
  | '0' :: cs => (if cs.head?.any Char.isDigit then ['0'] else ['\x00'], 1)
  | '\r' :: '\n' :: _ => ([], 2)
  | '\n' :: _ | '\r' :: _ | '\u2028' :: _ | '\u2029' :: _ => ([], 1)
  | 'x' :: cs =>
    match hexDigits 2 cs with
    | [a, b] => ([Char.ofNat (hexValue a * 16 + hexValue b)], 3)
    | digits => ('x' :: digits, 1 + digits.length)
  | 'u' :: '{' :: cs =>
    let digits := hexDigits 6 cs
    let close := if (cs.drop digits.length).head? = some '}' then 1 else 0
    (codePoint digits, 2 + digits.length + close)
  | 'u' :: cs =>
    let digits := hexDigits 4 cs
    (codePoint digits, 1 + digits.length)
  | c :: _ => ([c], 1)

/-- The value of the body of a string literal. -/
def unescape : List Char → List Char
  | [] => []
  | '\\' :: cs =>
    let (value, length) := escape cs
    value ++ unescape (cs.drop length)
  | c :: cs => c :: unescape cs
termination_by cs => cs.length

end JobBundler.Token
