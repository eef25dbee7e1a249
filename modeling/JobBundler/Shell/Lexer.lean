import JobBundler.Shell.Script

/-! # Words and operators of shell scripts -/

namespace JobBundler.Shell

inductive Token where
  | word (line : Nat) (w : Word)
  | operator (text : String)
  /-- A redirection of an output or of the input, the file of which follows. -/
  | redirection (output : Option Nat) (operator : String)
  /-- A text that is the input of a command. -/
  | document (text : Word)
  | lineEnd

def isNameStart (c : Char) : Bool :=
  c.isAlpha || c == '_'

def isNameChar (c : Char) : Bool :=
  c.isAlphanum || c == '_'

/-- Whether the character ends a word. -/
def endsWord (c : Char) : Bool :=
  [' ', '\t', '\n', ';', '&', '|', '<', '>', '(', ')'].contains c

/-! ## Parameters -/

/-- The name of a parameter at the front of a text, and the text after it. In braces a number may
have several digits. -/
def parameterName? (inBraces : Bool) : List Char → Option (String × List Char)
  | c :: cs =>
    if isNameStart c then
      some (String.ofList (c :: cs.takeWhile isNameChar), cs.dropWhile isNameChar)
    else if c.isDigit ∧ inBraces then
      some (String.ofList (c :: cs.takeWhile Char.isDigit), cs.dropWhile Char.isDigit)
    else if c.isDigit ∨ c ∈ ['@', '*', '#', '?', '$'] then some (c.toString, cs)
    else none
  | [] => none

/-- The use that a sign stands for. -/
def useOfSign? (orEmpty : Bool) : Char → Option Use
  | '-' => some (.orElse orEmpty)
  | '=' => some (.orAssign orEmpty)
  | '?' => some (.orFail orEmpty)
  | '+' => some (.instead orEmpty)
  | _ => none

/-- The use after the name of a parameter in braces, and the text after it. -/
def use? : List Char → Option (Use × List Char)
  | '}' :: cs => some (.value, '}' :: cs)
  | ':' :: c :: cs => (useOfSign? true c).map (·, cs)
  | '#' :: '#' :: cs => some (.withoutStart true, cs)
  | '#' :: cs => some (.withoutStart false, cs)
  | '%' :: '%' :: cs => some (.withoutEnd true, cs)
  | '%' :: cs => some (.withoutEnd false, cs)
  | c :: cs => (useOfSign? false c).map (·, cs)
  | [] => none

/-- The name of the parameter whose length is asked for in braces, and the text after these. -/
def lengthOf? : List Char → Option (String × List Char)
  | '#' :: cs => do
    match ← parameterName? true cs with
    | (name, '}' :: rest) => some (name, rest)
    | _ => none
  | _ => none

/-! ## Scripts in words -/

/-- A text in front of what has been read. -/
def prepend (cs : List Char) (r : Option (List Char × List Char)) :
    Option (List Char × List Char) :=
  r.map fun (text, rest) => (cs ++ text, rest)

/-- The text up to the parenthesis that closes the one before it, and the text after that. Others are
passed in pairs, and so is what stands between quotes. -/
def toParenthesis? : (depth : Nat) → (quote : Option Char) → List Char →
    Option (List Char × List Char)
  | _, _, [] => none
  | depth, quote, '\\' :: c :: cs =>
    if quote = some '\'' then
      prepend ['\\', c] (toParenthesis? depth (if c = '\'' then none else quote) cs)
    else prepend ['\\', c] (toParenthesis? depth quote cs)
  | depth, some q, c :: cs => prepend [c] (toParenthesis? depth (if c = q then none else some q) cs)
  | depth, none, c :: cs =>
    if c = '\'' ∨ c = '"' then prepend [c] (toParenthesis? depth (some c) cs)
    else if c = '(' then prepend [c] (toParenthesis? (depth + 1) none cs)
    else if c ≠ ')' then prepend [c] (toParenthesis? depth none cs)
    else match depth with
      | 0 => some ([], cs)
      | depth + 1 => prepend [c] (toParenthesis? depth none cs)

/-- The text up to the next backquote, without the backslashes that keep its meaning from
characters, and the text after that. -/
def toBackquote? : List Char → Option (List Char × List Char)
  | [] => none
  | '\\' :: c :: cs =>
    prepend (if c ∈ ['\x60', '\\', '$'] then [c] else ['\\', c]) (toBackquote? cs)
  | c :: cs => if c = '\x60' then some ([], cs) else prepend [c] (toBackquote? cs)

/-! ## Words -/

/-- Where pieces are read, which decides what they mean and where they end. -/
inductive Place where
  /-- In a word, up to what ends it. -/
  | word
  /-- After a double quote, up to the next one. -/
  | quotes
  /-- In the braces of a parameter, up to the closing one. -/
  | braces
  /-- In an arithmetic expression, with parentheses open, up to the two that close it. -/
  | arithmetic (depth : Nat)
  /-- In a document, up to its end. -/
  | document
  deriving DecidableEq, Repr

namespace Place

/-- What follows the place, if it ends here. -/
def afterEnd? : Place → List Char → Option (List Char)
  | word, [] => some []
  | word, c :: cs => if endsWord c then some (c :: cs) else none
  | quotes, '"' :: cs => some cs
  | braces, '}' :: cs => some cs
  | arithmetic 0, ')' :: ')' :: cs => some cs
  | document, [] => some []
  | _, _ => none

/-- Whether what is read is as if between quotes. -/
def isQuoted : Place → Bool
  | quotes | document => true
  | word | braces | arithmetic _ => false

/-- Whether quotes have their meaning. -/
def hasQuotes : Place → Bool
  | word | braces => true
  | quotes | document | arithmetic _ => false

/-- What a backslash and the character after it are. -/
def escaped (p : Place) (c : Char) : Word :=
  let special := match p with
    | word | braces => true
    | quotes => c ∈ ['$', '"', '\\', '\x60']
    | document => c ∈ ['$', '\\', '\x60']
    | arithmetic _ => false
  if special then [.char c true] else [.char '\\' true, .char c true]

/-- The place after a character of it. -/
def pass (p : Place) (c : Char) : Place :=
  match p, c with
  | arithmetic depth, '(' => arithmetic (depth + 1)
  | arithmetic depth, ')' => arithmetic (depth - 1)
  | p, _ => p

end Place

mutual

/-- The pieces of a place in at most `fuel` steps, and the text after it. -/
def pieces? : (fuel : Nat) → Place → List Char → Option (Word × List Char)
  | 0, _, _ => none
  | fuel + 1, p, cs =>
    match p.afterEnd? cs, cs with
    | some rest, _ => some ([], rest)
    | none, [] => none
    | none, '$' :: cs => do
      let (piece, rest) ← dollar? fuel p.isQuoted cs
      let (ps, rest) ← pieces? fuel p rest
      return (piece :: ps, rest)
    | none, '\x60' :: cs => do
      let (script, rest) ← toBackquote? cs
      let (ps, rest) ← pieces? fuel p rest
      return (.output (String.ofList script) p.isQuoted :: ps, rest)
    | none, '\\' :: '\n' :: cs => pieces? fuel p cs
    | none, '\\' :: c :: cs => (pieces? fuel p cs).map fun (ps, rest) => (p.escaped c ++ ps, rest)
    | none, c :: cs =>
      if c = '"' ∧ p.hasQuotes then do
        let (inner, rest) ← pieces? fuel .quotes cs
        let (ps, rest) ← pieces? fuel p rest
        return (.quotes :: inner ++ ps, rest)
      else if c = '\'' ∧ p.hasQuotes then do
        let inner := cs.takeWhile (· != '\'')
        match cs.drop inner.length with
        | _ :: rest =>
          let (ps, rest) ← pieces? fuel p rest
          return (.quotes :: inner.map (.char · true) ++ ps, rest)
        | [] => none
      else (pieces? fuel (p.pass c) cs).map fun (ps, rest) => (.char c p.isQuoted :: ps, rest)

/-- What a dollar sign makes of the text after it, and the text that it leaves. -/
def dollar? : (fuel : Nat) → (quoted : Bool) → List Char → Option (Piece × List Char)
  | 0, _, _ => none
  | fuel + 1, quoted, '(' :: '(' :: cs =>
    (pieces? fuel (.arithmetic 0) cs).map fun (w, rest) => (.arithmetic w quoted, rest)
  | _, quoted, '(' :: cs =>
    (toParenthesis? 0 none cs).map fun (script, rest) =>
      (.output (String.ofList script) quoted, rest)
  | fuel + 1, quoted, '{' :: cs =>
    match lengthOf? cs with
    | some (name, rest) => some (.parameter name .length [] quoted, rest)
    | none => do
      let (name, cs) ← parameterName? true cs
      let (use, cs) ← use? cs
      let (w, rest) ← pieces? fuel .braces cs
      return (.parameter name use w quoted, rest)
  | _, quoted, cs =>
    match parameterName? false cs with
    | some (name, rest) => some (.parameter name .value [] quoted, rest)
    | none => some (.char '$' quoted, cs)

end

/-! ## Tokens -/

/-- The operator at the front of a text. -/
def operator? (cs : List Char) : Option String :=
  [";;", "&&", "||", ";", "&", "|", "(", ")"].find? (·.toList.isPrefixOf cs)

/-- The redirection at the front of a text, and the text after it. A digit in front says which
output is meant. -/
def redirection? (cs : List Char) : Option (Option Nat × String × List Char) :=
  let (output, cs) := match cs with
    | c :: rest => if c.isDigit then (some (c.toNat - '0'.toNat), rest) else (none, cs)
    | [] => (none, [])
  (["<<-", "<<", "<&", "<", ">>", ">&", ">|", ">"].find? (·.toList.isPrefixOf cs)).map
    fun operator => (output, operator, cs.drop operator.length)

/-- The text that a word stands for as the last line of a document, and whether it has quotes. -/
def delimiter (w : Word) : String × Bool :=
  (String.ofList (w.filterMap fun
    | .char c _ => some c
    | _ => none),
   w.any fun
    | .char _ quoted => quoted
    | .quotes => true
    | _ => false)

/-- The lines of a document, which ends before its delimiter, and the text after it. -/
def documentLines (dropTabs : Bool) (delimiter : String) (cs : List Char) : String × List Char :=
  let clean (line : String) :=
    if dropTabs then String.ofList (line.toList.dropWhile (· == '\t')) else line
  let all := (String.ofList cs).splitOn "\n"
  let lines := (all.map clean).takeWhile (· != delimiter)
  (String.join (lines.map (· ++ "\n")), ("\n".intercalate (all.drop (lines.length + 1))).toList)

/-- The document after the sign and the delimiter for it, and the text without these. The document
starts on the next line, and nothing is replaced in it if its delimiter has quotes. -/
def document? (fuel : Nat) (dropTabs : Bool) (cs : List Char) : Option (Word × List Char) := do
  let (w, cs) ← pieces? fuel .word (cs.dropWhile fun c => c == ' ' || c == '\t')
  let (last, plain) := delimiter w
  let line := cs.takeWhile (· != '\n')
  let (text, rest) := documentLines dropTabs last (cs.drop (line.length + 1))
  let w ← if plain then some (text.toList.map (.char · true))
    else (pieces? fuel .document text.toList).map (·.1)
  return (w, line ++ '\n' :: rest)

/-- The tokens of a text from a line on, in at most `fuel` steps. -/
def tokensFrom? : (fuel line : Nat) → List Char → Option (List Token)
  | _, _, [] => some []
  | 0, _, _ => none
  | fuel + 1, line, c :: cs =>
    if c = ' ' ∨ c = '\t' then tokensFrom? fuel line cs
    else if c = '\n' then (tokensFrom? fuel (line + 1) cs).map (.lineEnd :: ·)
    else if c = '#' then tokensFrom? fuel line (cs.dropWhile (· != '\n'))
    else match operator? (c :: cs), redirection? (c :: cs) with
      | some text, _ =>
        (tokensFrom? fuel line ((c :: cs).drop text.length)).map (.operator text :: ·)
      | none, some (_, "<<", rest) => do
        let (w, rest) ← document? fuel false rest
        (tokensFrom? fuel line rest).map (.document w :: ·)
      | none, some (_, "<<-", rest) => do
        let (w, rest) ← document? fuel true rest
        (tokensFrom? fuel line rest).map (.document w :: ·)
      | none, some (output, operator, rest) =>
        (tokensFrom? fuel line rest).map (.redirection output operator :: ·)
      | none, none => do
        let (w, rest) ← pieces? fuel .word (c :: cs)
        let lines := ((c :: cs).take (cs.length + 1 - rest.length)).count '\n'
        let ts ← tokensFrom? fuel (line + lines) rest
        return if w.isEmpty then ts else .word line w :: ts

/-- The tokens of a text. Each character takes at most two steps. -/
def tokens? (text : String) : Option (List Token) :=
  tokensFrom? (2 * text.length + 2) 1 text.toList

end JobBundler.Shell
