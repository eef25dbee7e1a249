import JobBundler.Text.Printable

/-! # Quoted text

Messages show a piece of text between double quotes, with a backslash before a quote or a
backslash, the short escapes of a few control characters, and the code point of any other
character that would not be visible on its own. -/

namespace JobBundler.Text

/-- A character by its code point: `\u`, and the lower-case hexadecimal digits in braces. -/
def codeEscape (c : Char) : List Char :=
  ['\\', 'u', '\x7b'] ++ Nat.toDigits 16 c.toNat ++ ['\x7d']

/-- A character of quoted text. -/
def quotedChar (c : Char) : List Char :=
  match c with
  | '"' => ['\\', '"']
  | '\\' => ['\\', '\\']
  | '\n' => ['\\', 'n']
  | '\r' => ['\\', 'r']
  | '\t' => ['\\', 't']
  | '\x00' => ['\\', '0']
  | c => if isPrintable c && !isGraphemeExtend c then [c] else codeEscape c

/-- The text between double quotes, its invisible characters escaped. -/
def quoted (s : String) : String :=
  String.ofList ('"' :: s.toList.flatMap quotedChar ++ ['"'])

end JobBundler.Text
