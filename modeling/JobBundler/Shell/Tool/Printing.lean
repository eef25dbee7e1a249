import JobBundler.Shell.Tool.Basic

/-! # Tools that print

`echo` prints its arguments and `printf` prints them by a format. Both know escapes, of which octal
ones stand for any byte. -/

namespace JobBundler.Shell.Tool

/-! ## Escapes -/

/-- The byte that an escape of one letter stands for. -/
def escape? : Char → Option UInt8
  | '\\' => some 0x5c
  | 'a' => some 0x07
  | 'b' => some 0x08
  | 'e' => some 0x1b
  | 'f' => some 0x0c
  | 'n' => some 0x0a
  | 'r' => some 0x0d
  | 't' => some 0x09
  | 'v' => some 0x0b
  | _ => none

def isOctalDigit (c : Char) : Bool :=
  '0' ≤ c && c ≤ '7'

/-- The byte that octal digits spell. -/
def ofOctalDigits (ds : List Char) : UInt8 :=
  (ds.foldl (fun n d => n * 8 + (d.toNat - '0'.toNat)) 0).toUInt8

/-- What an escape stands for, from the text after its backslash, and how many characters of that
text belong to it. A backslash without a meaning stands for itself. -/
def escape (cs : List Char) : UInt8 × Nat :=
  match (cs.take 3).takeWhile isOctalDigit with
  | [] => match cs.head?.bind escape? with
    | some b => (b, 1)
    | none => (0x5c, 0)
  | ds => (ofOctalDigits ds, ds.length)

/-- What is printed of a text, and whether the printing stops with it. -/
structure Printed where
  bytes : List UInt8 := []
  stops : Bool := false

def Printed.prepend (bytes : List UInt8) (p : Printed) : Printed :=
  { p with bytes := bytes ++ p.bytes }

/-- A text with its escapes replaced, in at most `fuel` steps. A zero may stand before octal digits,
and `\c` stops the printing. -/
def unescape : (fuel : Nat) → List Char → Printed
  | 0, _ | _, [] => {}
  | fuel + 1, '\\' :: cs =>
    match cs with
    | 'c' :: _ => { stops := true }
    | _ =>
      let cs := match cs with
        | '0' :: d :: _ => if isOctalDigit d then cs.tail else cs
        | _ => cs
      let (b, size) := escape cs
      (unescape fuel (cs.drop size)).prepend [b]
  | fuel + 1, c :: cs => (unescape fuel cs).prepend (String.utf8EncodeChar c)

/-- The text with its escapes replaced. -/
def printed (text : String) : Printed :=
  unescape text.length text.toList

/-- Prints its arguments on a line. -/
def echo : Tool := fun arguments _ =>
  let (words, ending) := match arguments with
    | "-n" :: words => (words, "")
    | words => (words, "\n")
  let p := printed (" ".intercalate words)
  return .ofBytes (p.bytes ++ if p.stops then [] else ending.toUTF8.toList)

/-! ## Formats -/

/-- How an argument is printed. -/
structure Directive where
  /-- Whether what fills the width comes after the argument. -/
  left : Bool
  zeros : Bool
  width : Nat
  precision : Option Nat
  conversion : Char

/-- The number that the digits at the front of a text spell, and the text after them. -/
def number (cs : List Char) : Nat × List Char :=
  ((cs.takeWhile Char.isDigit).foldl (fun n d => n * 10 + (d.toNat - '0'.toNat)) 0,
    cs.dropWhile Char.isDigit)

/-- The directive after a percent sign, and the text after it. -/
def directive? (cs : List Char) : Option (Directive × List Char) :=
  let isFlag (c : Char) := c == '-' || c == '0' || c == '+' || c == ' ' || c == '#'
  let flags := cs.takeWhile isFlag
  let (width, cs) := number (cs.dropWhile isFlag)
  let (precision, cs) := match cs with
    | '.' :: cs => (some (number cs).1, (number cs).2)
    | cs => (none, cs)
  match cs with
  | conversion :: cs =>
    some (⟨flags.contains '-', flags.contains '0', width, precision, conversion⟩, cs)
  | [] => none

/-- The text in its width. -/
def Directive.pad (d : Directive) (bytes : List UInt8) : List UInt8 :=
  let missing := d.width - bytes.length
  if d.left then bytes ++ List.replicate missing 0x20
  else if d.zeros && d.conversion != 's' then List.replicate missing 0x30 ++ bytes
  else List.replicate missing 0x20 ++ bytes

/-- The number that an argument is. -/
def integer (argument : String) : Int :=
  match argument.toList with
  | '+' :: cs => (String.ofList cs).toInt?.getD 0
  | _ => argument.toInt?.getD 0

/-- A number in a base. -/
def digits (base : Nat) (n : Int) : List UInt8 :=
  (if n < 0 then [0x2d] else []) ++
    (Nat.toDigits base n.natAbs).flatMap String.utf8EncodeChar

/-- What a directive prints of an argument. -/
def Directive.print? (d : Directive) (argument : String) : Option Printed :=
  match d.conversion with
  | 's' =>
    let bytes := argument.toUTF8.toList
    some { bytes := d.pad ((d.precision.map bytes.take).getD bytes) }
  | 'b' =>
    let p := printed argument
    some { p with bytes := d.pad p.bytes }
  | 'c' => some { bytes := d.pad (argument.toUTF8.toList.take 1) }
  | 'd' | 'i' | 'u' => some { bytes := d.pad (digits 10 (integer argument)) }
  | 'x' => some { bytes := d.pad (digits 16 (integer argument)) }
  | 'o' => some { bytes := d.pad (digits 8 (integer argument)) }
  | _ => none

/-- What one pass over a format prints in at most `fuel` steps, and the arguments that it leaves. -/
def formatOnce : (fuel : Nat) → List Char → List String → Printed × List String
  | 0, _, arguments | _, [], arguments => ({}, arguments)
  | fuel + 1, '%' :: '%' :: cs, arguments =>
    let (p, rest) := formatOnce fuel cs arguments
    (p.prepend [0x25], rest)
  | fuel + 1, '%' :: cs, arguments =>
    match directive? cs with
    | none => ({ bytes := [0x25] }, arguments)
    | some (d, cs) => match d.print? (arguments.head?.getD "") with
      | none => ({ stops := true }, arguments)
      | some p =>
        if p.stops then (p, [])
        else
          let (q, rest) := formatOnce fuel cs arguments.tail
          (q.prepend p.bytes, rest)
  | fuel + 1, '\\' :: cs, arguments =>
    match cs with
    | 'c' :: _ => ({ stops := true }, [])
    | _ =>
      let (b, size) := escape cs
      let (p, rest) := formatOnce fuel (cs.drop size) arguments
      (p.prepend [b], rest)
  | fuel + 1, c :: cs, arguments =>
    let (p, rest) := formatOnce fuel cs arguments
    (p.prepend (String.utf8EncodeChar c), rest)

/-- What a format prints of arguments: it is used until none is left. -/
def format (cs : List Char) : (passes : Nat) → List String → List UInt8
  | 0, _ => []
  | n + 1, arguments =>
    let (p, rest) := formatOnce cs.length cs arguments
    if p.stops ∨ rest.isEmpty ∨ rest.length = arguments.length then p.bytes
    else p.bytes ++ format cs n rest

/-- Prints its arguments as a format says. -/
def printf : Tool := fun arguments _ =>
  return match arguments with
    | [] => .failure 2 "printf: usage: printf format [arg ...]"
    | "--" :: cs :: rest | cs :: rest => .ofBytes (format cs.toList (rest.length + 1) rest)

end JobBundler.Shell.Tool
