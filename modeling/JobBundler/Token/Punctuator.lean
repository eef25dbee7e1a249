import JobBundler.Token.Basic

/-! # Punctuators

The longest punctuator at the front of a text is the token, with one exception: `?.` before a digit
is a question mark, as in `a?.5:b`. -/

namespace JobBundler.Punctuator

/-- The punctuators of several characters, longer ones first. -/
def long : List String :=
  [">>>=", "...", "===", "!==", "**=", "<<=", ">>=", ">>>", "&&=", "||=", "??=", "=>", "==", "!=",
   "<=", ">=", "&&", "||", "??", "?.", "++", "--", "+=", "-=", "*=", "/=", "%=", "&=", "|=", "^=",
   "**", "<<", ">>"]

/-- The punctuators of one character, braces apart. -/
def short : List Char :=
  ['(', ')', '[', ']', ';', ',', ':', '.', '?', '~', '!', '<', '>', '=', '+', '-', '*', '/', '%',
   '&', '|', '^', '@']

/-- Whether the text starts with the punctuator `p`. -/
def startsWith (cs : List Char) (p : String) : Bool :=
  p.toList.isPrefixOf cs && !(p == "?." && (cs.drop 2).head?.any Char.isDigit)

/-- The punctuator at the front of the text. -/
def front? (cs : List Char) : Option (List Char) :=
  match long.find? (startsWith cs), cs with
  | some p, _ => some p.toList
  | none, c :: _ => if short.contains c then some [c] else none
  | none, [] => none

/-- The kind of a punctuator's token. -/
def kind (text : List Char) : TokenKind :=
  match text with
  | ['('] => .opening .paren
  | [')'] => .closing .paren
  | ['['] => .opening .square
  | [']'] => .closing .square
  | [';'] => .semicolon
  | [','] => .comma
  | [':'] => .colon
  | ['.'] => .dot
  | ['?', '.'] => .optionalChain
  | ['.', '.', '.'] => .ellipsis
  | ['@'] => .atSign
  | ['='] => .assign
  | ['=', '>'] => .arrow
  | ['<'] => .less
  | ['>'] => .greater
  | ['*'] => .star
  | text => .operator (String.ofList text)

theorem front?_isPrefix {cs text : List Char} (h : front? cs = some text) :
    ∃ rest, text ++ rest = cs := by
  unfold front? at h
  split at h
  · rename_i p hp
    cases h
    have hp := List.find?_some hp
    simp only [startsWith, Bool.and_eq_true, List.isPrefixOf_iff_prefix] at hp
    exact hp.1
  · split at h
    · cases h
      exact ⟨_, rfl⟩
    · cases h
  · cases h

theorem front?_ne_nil {cs text : List Char} (h : front? cs = some text) : text ≠ [] := by
  unfold front? at h
  split at h
  · rename_i p hp
    cases h
    have nonempty : ∀ p ∈ long, p.toList ≠ [] := by decide
    exact nonempty p (List.mem_of_find?_eq_some hp)
  · split at h
    · cases h
      exact List.cons_ne_nil _ _
    · cases h
  · cases h

end JobBundler.Punctuator
