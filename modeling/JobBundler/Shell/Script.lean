/-! # Shell scripts

The commands of a script as they are written, before any parameter is replaced by its value. -/

namespace JobBundler.Shell

/-- What is made of the value of a parameter. A word may come with it. -/
inductive Use where
  | value
  /-- The word, if the parameter is not set or, should that count, empty. -/
  | orElse (orEmpty : Bool)
  /-- As `orElse`, and the parameter is set to the word. -/
  | orAssign (orEmpty : Bool)
  /-- The script ends with the word as a complaint, where `orElse` would take it. -/
  | orFail (orEmpty : Bool)
  /-- The word, where `orElse` would take the value. -/
  | instead (orEmpty : Bool)
  | length
  /-- The value without a start that matches the word. -/
  | withoutStart (longest : Bool)
  /-- The value without an end that matches the word. -/
  | withoutEnd (longest : Bool)
  deriving DecidableEq, Repr

/-- A piece of a word. What stands between quotes is never split into several words. -/
inductive Piece where
  | char (c : Char) (quoted : Bool)
  /-- A pair of quotes, by which there is a word even if nothing stands between them. -/
  | quotes
  | parameter (name : String) (use : Use) (word : List Piece) (quoted : Bool)
  /-- What a script writes. -/
  | output (script : String) (quoted : Bool)
  | arithmetic (expression : List Piece) (quoted : Bool)
  deriving Repr

abbrev Word :=
  List Piece

/-- The text of a word that is written without quotes and parameters. -/
def Word.plain? : Word → Option String
  | [] => none
  | w => (w.mapM plainChar?).map String.ofList
where
  plainChar? : Piece → Option Char
    | .char c false => some c
    | _ => none

/-- Where a command reads or writes. Output `1` is the normal one, and `2` is for errors. -/
inductive Redirection where
  | write (output : Nat) (append : Bool) (file : Word)
  | read (file : Word)
  /-- The input is a text that stands in the script. -/
  | document (text : Word)
  /-- One output goes where another one goes. -/
  | duplicate (output source : Nat)
  deriving Repr

/-- Whether the redirection says what is read. -/
def Redirection.isInput : Redirection → Bool
  | read _ | document _ => true
  | write .. | duplicate .. => false

inductive Script where
  | skip
  /-- A program or a command of the shell with its arguments, written on a line. -/
  | simple (line : Nat) (assignments : List (String × Word)) (words : List Word)
      (redirections : List Redirection)
  | sequence (first second : Script)
  /-- The second one runs if the first one succeeds. -/
  | both (first second : Script)
  /-- The second one runs if the first one fails. -/
  | either (first second : Script)
  | negation (body : Script)
  /-- The second one reads what the first one writes. -/
  | pipe (first second : Script)
  | branch (test yes no : Script)
  /-- The first one runs if a pattern matches the text of the word. -/
  | choice (subject : Word) (patterns : List Word) (yes no : Script)
  | each (name : String) (words : List Word) (body : Script)
  /-- The body runs as long as the test succeeds, or as long as it fails. -/
  | loop (whileFails : Bool) (test body : Script)
  /-- Commands in braces, or in parentheses, which change nothing of the shell. -/
  | group (isolated : Bool) (body : Script) (redirections : List Redirection)
  /-- Gives commands a name. -/
  | define (name : String) (body : Script)
  deriving Repr

end JobBundler.Shell
