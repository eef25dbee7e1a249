import JobBundler.Text.Ranges

/-! # White space

The characters with the Unicode property White_Space, and text with its white ends removed. Core's
`Char.isWhitespace` knows only four of them. -/

namespace JobBundler.Text

/-- The white-space code points, as ascending closed ranges. -/
def blankRanges : List (Nat × Nat) :=
  [(0x9, 0xd), (0x20, 0x20), (0x85, 0x85), (0xa0, 0xa0), (0x1680, 0x1680), (0x2000, 0x200a),
   (0x2028, 0x2029), (0x202f, 0x202f), (0x205f, 0x205f), (0x3000, 0x3000)]

/-- Whether `c` has the Unicode property White_Space. -/
def isBlank (c : Char) : Bool :=
  inRanges blankRanges c

/-- `cs` without the white space at its end. -/
def trimEnd (cs : List Char) : List Char :=
  (cs.reverse.dropWhile isBlank).reverse

/-- `cs` without the white space at its ends. -/
def trim (cs : List Char) : List Char :=
  trimEnd (cs.dropWhile isBlank)

/-- Whether the text holds nothing but white space. -/
def isBlankText (s : String) : Bool :=
  s.toList.all isBlank

/-- The maximal runs of characters that are not white space, in order. -/
def words (cs : List Char) : List (List Char) :=
  cs.foldr
    (fun c ws =>
      if isBlank c then [] :: ws
      else match ws with
        | w :: ws => (c :: w) :: ws
        | [] => [[c]])
    [[]]
  |>.filter fun w => !w.isEmpty

end JobBundler.Text
