import JobBundler.Shell.Tool.Printing

/-! # Translating bytes

`tr` replaces the bytes of a set by those of another one, drops them, or keeps one of several in a
row. -/

namespace JobBundler.Shell.Tool

/-- The sets of bytes with a name. -/
def namedSets : List (String × (Char → Bool)) :=
  [("[:upper:]", Char.isUpper), ("[:lower:]", Char.isLower), ("[:digit:]", Char.isDigit),
   ("[:alpha:]", Char.isAlpha), ("[:alnum:]", Char.isAlphanum),
   ("[:space:]", fun c => c == ' ' || '\t' ≤ c && c ≤ '\r')]

def allBytes : List UInt8 :=
  (List.range 256).map (·.toUInt8)

/-- The bytes at the front of the description of a set, and the description after them. -/
def nextBytes : List Char → List UInt8 × List Char
  | '\\' :: cs =>
    let (b, size) := escape cs
    ([b], cs.drop size)
  | c :: cs => (String.utf8EncodeChar c, cs)
  | [] => ([], [])

/-- The bytes of a set by its description, in at most `fuel` steps. -/
def byteSetFrom : (fuel : Nat) → List Char → List UInt8
  | 0, _ | _, [] => []
  | fuel + 1, cs =>
    match namedSets.find? (·.1.toList.isPrefixOf cs) with
    | some (name, holds) =>
      allBytes.filter (fun b => b < 0x80 && holds (Char.ofNat b.toNat)) ++
        byteSetFrom fuel (cs.drop name.length)
    | none =>
      match nextBytes cs with
      | ([first], '-' :: d :: ds) =>
        let (last, rest) := nextBytes (d :: ds)
        allBytes.filter (fun b => first ≤ b && last.all (b ≤ ·)) ++ byteSetFrom fuel rest
      | (bytes, rest) => bytes ++ byteSetFrom fuel rest

def byteSet (description : String) : List UInt8 :=
  byteSetFrom description.length description.toList

/-- The byte that takes the place of another one. The last one of the new bytes stands for those that
are missing. -/
def translateByte (old new : List UInt8) (b : UInt8) : UInt8 :=
  match (old.reverse.idxOf? b).map (old.length - 1 - ·) with
  | some n => (new[n]?.or new.getLast?).getD b
  | none => b

/-- The bytes without those of a set that follow themselves. -/
def squeeze (set : List UInt8) : List UInt8 → List UInt8
  | a :: b :: bs =>
    if a = b ∧ set.contains a then squeeze set (b :: bs) else a :: squeeze set (b :: bs)
  | bs => bs

/-- Translates the bytes of its input. -/
def tr : Tool := fun arguments input =>
  let (letters, sets) := options arguments
  let has (letter : Char) : Bool := letters.contains letter
  let sets := sets.map byteSet
  let first := sets.headD []
  let first := if has 'c' || has 'C' then allBytes.filter (!first.contains ·) else first
  let translated := match sets with
    | [_, second] =>
      if has 'd' then input.toList.filter (!first.contains ·)
      else input.toList.map (translateByte first second)
    | _ => if has 'd' then input.toList.filter (!first.contains ·) else input.toList
  return .ofBytes (if has 's' then squeeze (sets.tail.headD first) translated else translated)

end JobBundler.Shell.Tool
