import JobBundler.Glob.Pattern
import JobBundler.Shell.Tool.Basic

/-! # Tools that print what they read

They read the files that they are given, or else their input. -/

namespace JobBundler.Shell.Tool

/-- What the files hold one after the other, or what the input holds if there are none. A dash stands
for the input. -/
def contents (tool : String) (files : List String) (input : ByteArray) : StateM Disk Output :=
  forOperands (if files.isEmpty then ["-"] else files) fun name => do
    if name = "-" then return { stdout := input }
    match bytesOf (← get) input name with
    | .ok bytes => return { stdout := bytes }
    | .error e => return .failure 1 s!"{tool}: {name}: {reason e}"

/-- Prints the files. -/
def cat : Tool := fun arguments input =>
  contents "cat" (options arguments).2 input

/-- The lines of a text. -/
def lines (text : String) : List String :=
  let parts := text.splitOn "\n"
  if parts.getLast? = some "" then parts.dropLast else parts

/-- The lines as a text. -/
def ofLines (ls : List String) : String :=
  String.join (ls.map (· ++ "\n"))

/-- Prints something about the text of the files, or of the input if there are none. -/
def about (tool : String) (files : List String) (input : ByteArray) (f : String → Output) :
    StateM Disk Output := do
  let out ← contents tool files input
  return ({ out with stdout := .empty } : Output).append (f (Text.ofBytes out.stdout))

/-- An item of an expression that describes texts: a character, and whether it may be repeated or
left out. -/
abbrev ExpressionItem :=
  Glob.Token × Bool

/-- The items of an expression, in at most `fuel` steps. -/
def expressionFrom : (fuel : Nat) → List Char → List ExpressionItem
  | 0, _ | _, [] => []
  | fuel + 1, c :: cs =>
    let (t, rest) : Glob.Token × List Char := match c, cs with
      | '.', cs => (.anyChar, cs)
      | '\\', d :: cs => (.char d, cs)
      | '[', '^' :: cs => (Glob.charClass? ('!' :: cs)).getD (.char '[', '^' :: cs)
      | '[', cs => (Glob.charClass? cs).getD (.char '[', cs)
      | c, cs => (.char c, cs)
    match rest with
    | '*' :: rest => (t, true) :: expressionFrom fuel rest
    | rest => (t, false) :: expressionFrom fuel rest

/-- Whether a text starts with one that the items describe, or is one. -/
def describes (toEnd : Bool) : List ExpressionItem → List Char → Bool
  | [], cs => !toEnd || cs.isEmpty
  | (t, true) :: items, c :: cs =>
    describes toEnd items (c :: cs) || t.accepts c && describes toEnd ((t, true) :: items) cs
  | (_, true) :: items, [] => describes toEnd items []
  | (t, false) :: items, c :: cs => t.accepts c && describes toEnd items cs
  | (_, false) :: _, [] => false
termination_by items cs => items.length + cs.length

/-- Whether a text holds one that the items describe. -/
def occurs (toEnd : Bool) (items : List ExpressionItem) (cs : List Char) : Bool :=
  describes toEnd items cs || match cs with
    | [] => false
    | _ :: cs => occurs toEnd items cs

/-- Whether a line holds a text that an expression describes. The expression may be tied to the start
or to the end of the line. -/
def isFound (expression line : List Char) : Bool :=
  let (fromStart, cs) := match expression with
    | '^' :: cs => (true, cs)
    | cs => (false, cs)
  let toEnd := cs.getLast? == some '$'
  let items := expressionFrom cs.length (if toEnd then cs.dropLast else cs)
  if fromStart then describes toEnd items line else occurs toEnd items line

/-- Prints the lines in which something is found, or their number. -/
def grep : Tool := fun arguments input => do
  let (letters, operands) := options arguments
  match operands with
  | [] => return .failure 2 "Usage: grep [OPTION]... PATTERNS [FILE]..."
  | expression :: files =>
    let print (s : String) : Output :=
      let found := (lines s).filter fun line =>
        isFound expression.toList line.toList != letters.contains 'v'
      let shown :=
        if letters.contains 'q' then ""
        else if letters.contains 'c' then s!"{found.length}\n"
        else ofLines found
      { Output.ofText shown with status := if found.isEmpty then 1 else 0 }
    let out ← about "grep" files input print
    return if out.stderr.isEmpty then out else { out with status := 2 }

/-- Prints how many lines, words or bytes there are. -/
def wc : Tool := fun arguments input =>
  let (letters, files) := options arguments
  let label := match files with
    | [file] => s!" {file}"
    | _ => ""
  let count (s : String) : Nat :=
    if letters.contains 'l' then s.toList.count '\n'
    else if letters.contains 'w' then (lines s).foldl (fun n l =>
      n + ((l.splitOn " ").filter (!·.isEmpty)).length) 0
    else s.utf8ByteSize
  about "wc" files input (fun s => .ofText s!"{count s}{label}\n")

/-- How many lines are asked for, and the files. -/
def lineCount : List String → Nat × List String
  | "-n" :: n :: files => (n.toNat?.getD 10, files)
  | a :: files =>
    match a.toList with
    | '-' :: 'n' :: ds | '-' :: ds =>
      match (String.ofList ds).toNat? with
      | some n => (n, files)
      | none => (10, a :: files)
    | _ => (10, a :: files)
  | [] => (10, [])

/-- Prints the first lines. -/
def head : Tool := fun arguments input =>
  let (n, files) := lineCount arguments
  about "head" files input (fun s => .ofText (ofLines ((lines s).take n)))

/-- Prints the last lines. -/
def tail : Tool := fun arguments input =>
  let (n, files) := lineCount arguments
  about "tail" files input (fun s => .ofText (ofLines ((lines s).drop ((lines s).length - n))))

/-- Prints the lines in order. -/
def sort : Tool := fun arguments input =>
  let (letters, files) := options arguments
  let order (s : String) : List String :=
    let ls := (lines s).mergeSort
    let ls := if letters.contains 'u' then ls.eraseDups else ls
    if letters.contains 'r' then ls.reverse else ls
  about "sort" files input (fun s => .ofText (ofLines (order s)))

/-- The sign between the fields of a line, the number of the field that is asked for, and the
files. -/
def fieldChoice : List String → Char × Nat × List String
  | "-d" :: sign :: rest =>
    let (_, n, files) := fieldChoice rest
    (sign.toList.headD '\t', n, files)
  | "-f" :: n :: rest =>
    let (sign, _, files) := fieldChoice rest
    (sign, n.toNat?.getD 1, files)
  | a :: rest =>
    match a.toList with
    | '-' :: 'd' :: sign :: _ =>
      let (_, n, files) := fieldChoice rest
      (sign, n, files)
    | '-' :: 'f' :: ds =>
      let (sign, _, files) := fieldChoice rest
      (sign, (String.ofList ds).toNat?.getD 1, files)
    | _ => ('\t', 1, a :: rest)
  | [] => ('\t', 1, [])

/-- Prints one field of each line. A line without the sign between fields is printed whole. -/
def cut : Tool := fun arguments input =>
  let (sign, n, files) := fieldChoice arguments
  let field (line : String) : String :=
    match line.splitOn sign.toString with
    | [line] => line
    | fields => fields[n - 1]?.getD ""
  about "cut" files input (fun s => .ofText (ofLines ((lines s).map field)))

/-- Prints the names in directories, save for those with a dot in front. -/
def ls : Tool := fun arguments _ => do
  let (letters, operands) := options arguments
  forOperands (if operands.isEmpty then ["."] else operands) fun name => do
    let d ← get
    match d.nodeAt ⟨name⟩, d.locate ⟨name⟩ with
    | .ok .directory, .ok l =>
      let names := d.names l
      let dots := if letters.contains 'a' then [".", ".."] else []
      let all := letters.contains 'a' || letters.contains 'A'
      return .ofText (ofLines (dots ++ names.filter fun n => all || n.toList.head? != some '.'))
    | .ok _, _ => return .ofText s!"{name}\n"
    | .error e, _ => return .failure 2 s!"ls: cannot access '{name}': {reason e}"

end JobBundler.Shell.Tool
