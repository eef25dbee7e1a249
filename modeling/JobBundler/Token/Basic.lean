import JobBundler.Source.Span

/-! # Tokens

The tokens of an ECMAScript or TypeScript module. Names and keywords are one kind, since only
context tells them apart. A template literal is a chunk of text up to each substitution, with the
tokens of the substitutions in between, so the braces among the tokens are those of the program and
never those inside literal text. -/

namespace JobBundler

/-- The three pairs of brackets. -/
inductive Bracket where
  | brace
  | paren
  | square
  deriving DecidableEq, Repr

namespace Bracket

def openingChar : Bracket → Char
  | brace => '{'
  | paren => '('
  | square => '['

def closingChar : Bracket → Char
  | brace => '}'
  | paren => ')'
  | square => ']'

end Bracket

inductive TokenKind where
  /-- An identifier or keyword. -/
  | ident (name : String)
  /-- `#name`, without the sign. -/
  | privateName (name : String)
  /-- A string literal, by its value. -/
  | str (value : String)
  /-- A chunk of template text, as written. -/
  | template (text : String)
  | number (text : String)
  /-- A regular expression with its slashes and flags. -/
  | regex (text : String)
  | opening (b : Bracket)
  | closing (b : Bracket)
  | semicolon
  | comma
  | colon
  | dot
  /-- `?.` -/
  | optionalChain
  /-- `...` -/
  | ellipsis
  /-- `@` -/
  | atSign
  /-- `=` -/
  | assign
  /-- `=>` -/
  | arrow
  | less
  | greater
  | star
  /-- Any other operator. -/
  | operator (text : String)
  deriving DecidableEq, Repr

structure Token where
  kind : TokenKind
  span : Span
  /-- A line terminator stands between the token before and this one. -/
  newlineBefore : Bool
  deriving DecidableEq, Repr

namespace TokenKind

/-- The kind as messages name it. -/
def describe : TokenKind → String
  | ident name => s!"identifier '{name}'"
  | privateName name => s!"private name '#{name}'"
  | str _ => "string literal"
  | template _ => "template literal"
  | number text => s!"number '{text}'"
  | regex _ => "regular expression"
  | opening b => s!"'{b.openingChar}'"
  | closing b => s!"'{b.closingChar}'"
  | semicolon => "';'"
  | comma => "','"
  | colon => "':'"
  | dot => "'.'"
  | optionalChain => "'?.'"
  | ellipsis => "'...'"
  | atSign => "'@'"
  | assign => "'='"
  | arrow => "'=>'"
  | less => "'<'"
  | greater => "'>'"
  | star => "'*'"
  | operator text => s!"'{text}'"

/-- The keywords after which an expression starts. -/
def expressionKeywords : List String :=
  ["return", "typeof", "instanceof", "in", "of", "new", "delete", "void", "throw", "case", "do",
   "else", "yield", "await"]

/-- Whether a slash after this token starts a regular expression. After the end of an operand it
is a division. -/
def allowsRegexAfter : TokenKind → Bool
  | ident name => expressionKeywords.contains name
  | number _ | str _ | template _ | regex _ | privateName _ | closing _ => false
  | operator text => text != "++" && text != "--"
  | _ => true

end TokenKind

/-- The reserved words, which never name an import's binding. -/
def reservedWords : List String :=
  ["break", "case", "catch", "class", "const", "continue", "debugger", "default", "delete", "do",
   "else", "enum", "export", "extends", "false", "finally", "for", "function", "if", "import",
   "in", "instanceof", "new", "null", "return", "super", "switch", "this", "throw", "true", "try",
   "typeof", "var", "void", "while", "with"]

/-- Whether `word` is a reserved word. -/
def isReservedWord (word : String) : Bool :=
  reservedWords.contains word

namespace Token

/-- The text of an identifier or keyword. -/
def name? (t : Token) : Option String :=
  match t.kind with
  | .ident name => some name
  | _ => none

/-- Whether the token is the identifier or keyword `word`. -/
def isWord (t : Token) (word : String) : Bool :=
  t.kind == .ident word

end Token
end JobBundler
