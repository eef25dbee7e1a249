import JobBundler.Token.Escape

/-! # Strings in JSON texts -/

namespace JobBundler.Json

/-- What a string literal is made of: characters, and code units written as `\u` escapes. -/
inductive StringPart where
  | char (c : Char)
  | unit (n : Nat)
  deriving DecidableEq, Repr

/-- The character that an escape of one letter stands for. -/
def shortEscape? : Char → Option Char
  | '"' => some '"'
  | '\\' => some '\\'
  | '/' => some '/'
  | 'b' => some '\x08'
  | 'f' => some '\x0c'
  | 'n' => some '\n'
  | 'r' => some '\r'
  | 't' => some '\t'
  | _ => none

/-- The parts of a string literal up to its closing quote, and the text after it. -/
def stringParts? : List Char → Option (List StringPart × List Char)
  | [] => none
  | '"' :: cs => some ([], cs)
  | '\\' :: 'u' :: a :: b :: c :: d :: cs =>
    if [a, b, c, d].all Token.isHexDigit then
      (stringParts? cs).map fun (ps, rest) => (.unit (Token.ofHexDigits [a, b, c, d]) :: ps, rest)
    else none
  | '\\' :: c :: cs =>
    match shortEscape? c with
    | some e => (stringParts? cs).map fun (ps, rest) => (.char e :: ps, rest)
    | none => none
  | c :: cs =>
    if c.toNat < 0x20 ∨ c = '\\' then none
    else (stringParts? cs).map fun (ps, rest) => (.char c :: ps, rest)

theorem stringParts?_length_lt {cs rest : List Char} {ps : List StringPart}
    (h : stringParts? cs = some (ps, rest)) : rest.length < cs.length := by
  fun_induction stringParts? cs generalizing ps with
  | case1 => cases h
  | case2 =>
    cases h
    simp
  | case3 a b c d cs _ ih =>
    obtain ⟨⟨qs, r⟩, hq, heq⟩ := Option.map_eq_some_iff.1 h
    cases heq
    have := ih hq
    simp only [List.length_cons]
    omega
  | case4 => cases h
  | case5 c cs _ e _ ih =>
    obtain ⟨⟨qs, r⟩, hq, heq⟩ := Option.map_eq_some_iff.1 h
    cases heq
    have := ih hq
    simp only [List.length_cons]
    omega
  | case6 => cases h
  | case7 => cases h
  | case8 c cs _ _ _ _ ih =>
    obtain ⟨⟨qs, r⟩, hq, heq⟩ := Option.map_eq_some_iff.1 h
    cases heq
    have := ih hq
    simp only [List.length_cons]
    omega

/-- Whether the code unit is the first half of a surrogate pair. -/
def isHighSurrogate (n : Nat) : Bool :=
  0xd800 ≤ n && n < 0xdc00

/-- Whether the code unit is the second half of a surrogate pair. -/
def isLowSurrogate (n : Nat) : Bool :=
  0xdc00 ≤ n && n < 0xe000

/-- The text of the parts. Surrogates have to come in pairs. -/
def textOf? : List StringPart → Option (List Char)
  | [] => some []
  | .char c :: ps => (textOf? ps).map (c :: ·)
  | .unit m :: .unit n :: ps =>
    if isHighSurrogate m then
      if isLowSurrogate n then do
        let c ← Token.charOfCode? (0x10000 + (m - 0xd800) * 0x400 + (n - 0xdc00))
        return c :: (← textOf? ps)
      else none
    else do return (← Token.charOfCode? m) :: (← textOf? (.unit n :: ps))
  | .unit m :: ps => do return (← Token.charOfCode? m) :: (← textOf? ps)

/-- A lower-case hexadecimal digit. -/
def hexDigit (n : Nat) : Char :=
  (Nat.toDigits 16 n).headD '0'

/-- A character of a string literal. -/
def escapeChar (c : Char) : List Char :=
  match c with
  | '"' => ['\\', '"']
  | '\\' => ['\\', '\\']
  | '\x08' => ['\\', 'b']
  | '\x0c' => ['\\', 'f']
  | '\n' => ['\\', 'n']
  | '\r' => ['\\', 'r']
  | '\t' => ['\\', 't']
  | c =>
    if c.toNat < 0x20 then ['\\', 'u', '0', '0', hexDigit (c.toNat / 16), hexDigit (c.toNat % 16)]
    else [c]

/-- The string literal of a text. -/
def literal (text : String) : String :=
  String.ofList ('"' :: text.toList.flatMap escapeChar ++ ['"'])

end JobBundler.Json
