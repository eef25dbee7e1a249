/-! # Bytes as text

Bytes that are meant to be UTF-8 are read as characters. A piece that is none, be it a stray byte or
the start of a character that does not go on, is read as one replacement character. -/

namespace JobBundler.Text

/-- Stands for bytes that are no character. -/
def replacement : Char :=
  '\ufffd'

/-- The number of bytes of the characters that start with a byte; zero if there are none. -/
def encodedSize (first : UInt8) : Nat :=
  if first < 0x80 then 1
  else if first < 0xc2 then 0
  else if first < 0xe0 then 2
  else if first < 0xf0 then 3
  else if first < 0xf5 then 4
  else 0

/-- Whether the byte goes on with a character. -/
def isContinuation (b : UInt8) : Bool :=
  0x80 ≤ b && b < 0xc0

/-- Whether the second byte fits the first one: no character is written longer than it has to be, is
a surrogate, or lies past the last one. -/
def followsFirst (first second : UInt8) : Bool :=
  isContinuation second &&
    (if first = 0xe0 then 0xa0 ≤ second
     else if first = 0xed then second < 0xa0
     else if first = 0xf0 then 0x90 ≤ second
     else if first = 0xf4 then second < 0x90
     else true)

/-- The bytes after the first one that go on with its character. -/
def continuation (first : UInt8) : List UInt8 → List UInt8
  | second :: bs =>
    if 2 ≤ encodedSize first ∧ followsFirst first second then
      second :: (bs.takeWhile isContinuation).take (encodedSize first - 2)
    else []
  | [] => []

/-- The part of the first byte that belongs to the code point. -/
def leadBits (first : UInt8) : Nat :=
  match encodedSize first with
  | 2 => first.toNat - 0xc0
  | 3 => first.toNat - 0xe0
  | 4 => first.toNat - 0xf0
  | _ => first.toNat

/-- The character that a first byte and its continuation are. -/
def charOfBytes (first : UInt8) (rest : List UInt8) : Char :=
  if rest.length + 1 = encodedSize first then
    Char.ofNat (rest.foldl (fun n b => n * 64 + (b.toNat - 0x80)) (leadBits first))
  else replacement

/-- The characters that bytes are. -/
def decode : List UInt8 → List Char
  | [] => []
  | first :: bs =>
    let rest := continuation first bs
    charOfBytes first rest :: decode (bs.drop rest.length)
termination_by bs => bs.length

/-- The text that bytes are. -/
def ofBytes (bytes : ByteArray) : String :=
  String.ofList (decode bytes.toList)

end JobBundler.Text
