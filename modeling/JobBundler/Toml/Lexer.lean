import JobBundler.Toml.Text

/-! # Tokens of TOML texts

Strings, bare words, marks and line ends. White space within a line and comments are left out. -/

namespace JobBundler.Toml

inductive Token where
  /-- A string; only one that is written on one line can be a key. -/
  | string (text : String) (oneLine : Bool)
  | bare (word : String)
  /-- A bracket, a brace, a comma, a dot or the sign between a key and its value. -/
  | mark (c : Char)
  | lineEnd
  deriving DecidableEq, Repr

/-- Whether the character may stand in a bare key. -/
def isBareChar (c : Char) : Bool :=
  c.isAlphanum || c == '_' || c == '-'

def isMark (c : Char) : Bool :=
  ['[', ']', '{', '}', ',', '.', '='].contains c

/-- The text from the end of the line on. -/
def skipComment (cs : List Char) : List Char :=
  cs.dropWhile isPlain

/-- The text after the opening quotes of a string. A line end right after them is not part of it. -/
def dropLineEnd : List Char → List Char
  | '\n' :: cs | '\r' :: '\n' :: cs => cs
  | cs => cs

/-- Whether the string that goes on here after its first quote is written on one line. -/
def isOneLine (quote : Char) (cs : List Char) : Bool :=
  !([quote, quote].isPrefixOf cs)

/-- The text of the string that goes on here after its first quote, and what stands after it. -/
def string? (quote : Char) (cs : List Char) : Option (List Char × List Char) :=
  match quote == '"', isOneLine quote cs with
  | true, true => basic? cs
  | true, false => basicLines? .none (dropLineEnd (cs.drop 2))
  | false, true => literal? cs
  | false, false => literalLines? (dropLineEnd (cs.drop 2))

theorem dropLineEnd_length_le (cs : List Char) : (dropLineEnd cs).length ≤ cs.length := by
  unfold dropLineEnd
  split <;> grind

theorem string?_length_lt {quote : Char} {cs text rest : List Char}
    (h : string? quote cs = some (text, rest)) : rest.length < cs.length := by
  have hd := dropLineEnd_length_le (cs.drop 2)
  rw [List.length_drop] at hd
  unfold string? at h
  split at h
  · exact basic?_length_lt h
  · have := basicLines?_length_lt h
    omega
  · exact literal?_length_lt h
  · have := literalLines?_length_lt h
    omega

/-- The tokens of a text. -/
def tokens? (cs : List Char) : Option (List Token) :=
  match cs with
  | [] => some []
  | '\n' :: cs => (tokens? cs).map (.lineEnd :: ·)
  | '\r' :: '\n' :: cs => (tokens? cs).map (.lineEnd :: ·)
  | c :: cs =>
    if isSpace c then tokens? cs
    else if c = '#' then tokens? (skipComment cs)
    else if isMark c then (tokens? cs).map (.mark c :: ·)
    else if isBareChar c then
      (tokens? (cs.dropWhile isBareChar)).map
        (.bare (String.ofList (c :: cs.takeWhile isBareChar)) :: ·)
    else if c = '"' ∨ c = '\'' then
      match _h : string? c cs with
      | none => none
      | some (text, rest) =>
        (tokens? rest).map (.string (String.ofList text) (isOneLine c cs) :: ·)
    else none
termination_by cs.length
decreasing_by
  all_goals simp only [List.length_cons, skipComment]
  · omega
  · omega
  · omega
  · exact Nat.lt_succ_of_le (List.dropWhile_sublist _).length_le
  · omega
  · exact Nat.lt_succ_of_le (List.dropWhile_sublist _).length_le
  · exact Nat.lt_succ_of_lt (string?_length_lt _h)

end JobBundler.Toml
