import JobBundler.Shell.Lexer

/-! # Reading shell scripts

Simple commands, pipelines, lists with `&&` and `||`, branches, choices, loops, functions, braces
and parentheses. A script with anything else is not read. -/

namespace JobBundler.Shell

/-- The words that end a list of commands. -/
def closingWords : List String :=
  ["\x7d", "then", "fi", "else", "elif", "do", "done", "esac"]

/-- Whether the tokens are at the end of a list of commands. -/
def atListEnd : List Token → Bool
  | [] => true
  | .operator text :: _ => text == ")" || text == ";;"
  | .word _ w :: _ => w.plain?.any closingWords.contains
  | _ => false

def skipLineEnds : List Token → List Token
  | .lineEnd :: ts => skipLineEnds ts
  | ts => ts

/-- The tokens after a word that has to stand in front. -/
def expectWord? (text : String) : List Token → Option (List Token)
  | .word _ w :: ts => if w.plain? = some text then some ts else none
  | _ => none

/-- The tokens after an operator that has to stand in front. -/
def expectOperator? (text : String) : List Token → Option (List Token)
  | .operator t :: ts => if t = text then some ts else none
  | _ => none

/-! ## Simple commands -/

/-- An assignment at the start of a command. -/
def assignment? (w : Word) : Option (String × Word) := do
  let name := w.takeWhile fun p => match p with
    | .char c false => isNameChar c
    | _ => false
  let text ← Word.plain? name
  guard (text.toList.head?.all isNameStart)
  match w.drop name.length with
  | .char '=' false :: value => some (text, value)
  | _ => none

/-- The redirection that an operator and the word after it make. -/
def redirectionOf? (output : Option Nat) (operator : String) (w : Word) : Option Redirection :=
  match operator with
  | ">>" => some (.write (output.getD 1) true w)
  | "<" => some (.read w)
  | ">&" => do return .duplicate (output.getD 1) (← (← w.plain?).toNat?)
  | ">" | ">|" => some (.write (output.getD 1) false w)
  | _ => none

/-- The words and redirections at the front of the tokens, and the tokens after them. -/
def wordsAndRedirections? : List Token → Option (List Word × List Redirection × List Token)
  | .redirection output operator :: .word _ w :: ts => do
    let r ← redirectionOf? output operator w
    let (ws, rs, ts) ← wordsAndRedirections? ts
    return (ws, r :: rs, ts)
  | .redirection .. :: _ => none
  | .document w :: ts => do
    let (ws, rs, ts) ← wordsAndRedirections? ts
    return (ws, .document w :: rs, ts)
  | .word _ w :: ts => do
    let (ws, rs, ts) ← wordsAndRedirections? ts
    return (w :: ws, rs, ts)
  | ts => some ([], [], ts)

/-- The redirections at the front of the tokens, and the tokens after them. -/
def redirections? (ts : List Token) : Option (List Redirection × List Token) := do
  let (ws, rs, ts) ← wordsAndRedirections? ts
  if ws.isEmpty then some (rs, ts) else none

/-- A simple command. The words at its start that assign are no words of it. -/
def simple? (ts : List Token) : Option (Script × List Token) := do
  let line := match ts with
    | .word line _ :: _ => line
    | _ => 1
  let (ws, rs, rest) ← wordsAndRedirections? ts
  guard (!(ws.isEmpty && rs.isEmpty))
  let assignments := (ws.map assignment?).takeWhile (·.isSome)
  return (.simple line (assignments.filterMap (·)) (ws.drop assignments.length) rs, rest)

/-! ## Parts of compound commands -/

/-- The words up to the end of a line. -/
def valuesOf? : List Token → Option (List Word × List Token)
  | .word _ w :: ts => do
    let (ws, ts) ← valuesOf? ts
    return (w :: ws, ts)
  | .operator ";" :: ts | .lineEnd :: ts => some ([], skipLineEnds ts)
  | _ => none

/-- The words that a loop without any goes through. -/
def allArguments : List Word :=
  [[.quotes, .parameter "@" .value [] true]]

/-- The head of a loop up to its body: the name, the words that it stands for, and the rest. -/
def loopHead? : List Token → Option (String × List Word × List Token)
  | .word _ name :: ts => do
    let name ← name.plain?
    match expectWord? "in" (skipLineEnds ts) with
    | some ts =>
      let (ws, ts) ← valuesOf? ts
      return (name, ws, ← expectWord? "do" ts)
    | none =>
      let ts := skipLineEnds ((expectOperator? ";" ts).getD ts)
      return (name, allArguments, ← expectWord? "do" ts)
  | _ => none

/-- The patterns of a choice, and the tokens after the parenthesis that ends them. -/
def patterns? : List Token → Option (List Word × List Token)
  | .word _ w :: .operator "|" :: ts => do
    let (ws, ts) ← patterns? ts
    return (w :: ws, ts)
  | .word _ w :: .operator ")" :: ts => some ([w], ts)
  | _ => none

/-- The name that a definition gives to commands, and the tokens of these. -/
def definition? : List Token → Option (String × List Token)
  | .word _ w :: .operator "(" :: .operator ")" :: ts => w.plain?.map (·, skipLineEnds ts)
  | _ => none

/-! ## Commands -/

mutual

/-- The commands up to the end of a list, read in at most `fuel` steps, and the tokens after it. -/
def list? : (fuel : Nat) → List Token → Option (Script × List Token)
  | 0, _ => none
  | fuel + 1, ts => do
    let ts := skipLineEnds ts
    if atListEnd ts then return (.skip, ts)
    let (s, ts) ← chain? fuel id ts
    match ts with
    | .operator ";" :: ts | .lineEnd :: ts =>
      let (rest, ts) ← list? fuel ts
      return (.sequence s rest, ts)
    | .operator "&" :: ts =>
      let (rest, ts) ← list? fuel ts
      return (.sequence (.group true s []) rest, ts)
    | ts => if atListEnd ts then return (s, ts) else none

/-- Pipelines with `&&` and `||` between them. What `join` makes of the first one holds those that
have been read. -/
def chain? : (fuel : Nat) → (join : Script → Script) → List Token →
    Option (Script × List Token)
  | 0, _, _ => none
  | fuel + 1, join, ts => do
    let (s, ts) ← pipeline? fuel ts
    match ts with
    | .operator "&&" :: ts => chain? fuel (.both (join s)) (skipLineEnds ts)
    | .operator "||" :: ts => chain? fuel (.either (join s)) (skipLineEnds ts)
    | ts => return (join s, ts)

/-- Commands with `|` between them. -/
def pipeline? : (fuel : Nat) → List Token → Option (Script × List Token)
  | 0, _ => none
  | fuel + 1, ts => do
    if let some ts := expectWord? "!" ts then
      let (s, ts) ← pipeline? fuel ts
      return (.negation s, ts)
    let (s, ts) ← command? fuel ts
    match ts with
    | .operator "|" :: ts =>
      let (rest, ts) ← pipeline? fuel (skipLineEnds ts)
      return (.pipe s rest, ts)
    | ts => return (s, ts)

/-- A command with its redirections. -/
def command? : (fuel : Nat) → List Token → Option (Script × List Token)
  | 0, _ => none
  | fuel + 1, ts => do
    if let some (name, ts) := definition? ts then
      let (s, ts) ← command? fuel ts
      return (.define name s, ts)
    match ← compound? fuel ts with
    | some (isolated, s, ts) =>
      let (rs, ts) ← redirections? ts
      return (.group isolated s rs, ts)
    | none => simple? ts

/-- A compound command, if one stands in front, and whether it changes nothing of the shell. -/
def compound? : (fuel : Nat) → List Token → Option (Option (Bool × Script × List Token))
  | 0, _ => none
  | fuel + 1, ts => do
    if let some ts := expectOperator? "(" ts then
      let (s, ts) ← list? fuel ts
      return some (true, s, ← expectOperator? ")" ts)
    if let some ts := expectWord? "\x7b" ts then
      let (s, ts) ← list? fuel ts
      return some (false, s, ← expectWord? "\x7d" ts)
    if let some ts := expectWord? "if" ts then
      let (s, ts) ← branch? fuel ts
      return some (false, s, ts)
    if let some ts := expectWord? "while" ts then
      let (s, ts) ← loop? fuel false ts
      return some (false, s, ts)
    if let some ts := expectWord? "until" ts then
      let (s, ts) ← loop? fuel true ts
      return some (false, s, ts)
    if let some ts := expectWord? "for" ts then
      let (name, ws, ts) ← loopHead? ts
      let (s, ts) ← list? fuel ts
      return some (false, .each name ws s, ← expectWord? "done" ts)
    if let some (.word _ subject :: ts) := expectWord? "case" ts then
      let ts ← expectWord? "in" (skipLineEnds ts)
      let (s, ts) ← choices? fuel subject ts
      return some (false, s, ts)
    return none

/-- The rest of a branch after `if` or `elif`. -/
def branch? : (fuel : Nat) → List Token → Option (Script × List Token)
  | 0, _ => none
  | fuel + 1, ts => do
    let (test, ts) ← list? fuel ts
    let (yes, ts) ← list? fuel (← expectWord? "then" ts)
    if let some ts := expectWord? "elif" ts then
      let (no, ts) ← branch? fuel ts
      return (.branch test yes no, ts)
    if let some ts := expectWord? "else" ts then
      let (no, ts) ← list? fuel ts
      return (.branch test yes no, ← expectWord? "fi" ts)
    return (.branch test yes .skip, ← expectWord? "fi" ts)

/-- The rest of a loop after `while` or `until`. -/
def loop? : (fuel : Nat) → (whileFails : Bool) → List Token → Option (Script × List Token)
  | 0, _, _ => none
  | fuel + 1, whileFails, ts => do
    let (test, ts) ← list? fuel ts
    let (body, ts) ← list? fuel (← expectWord? "do" ts)
    return (.loop whileFails test body, ← expectWord? "done" ts)

/-- The rest of a choice from the patterns of a case on. -/
def choices? : (fuel : Nat) → (subject : Word) → List Token → Option (Script × List Token)
  | 0, _, _ => none
  | fuel + 1, subject, ts => do
    let ts := skipLineEnds ts
    if let some ts := expectWord? "esac" ts then return (.skip, ts)
    let (ws, ts) ← patterns? ((expectOperator? "(" ts).getD ts)
    let (yes, ts) ← list? fuel ts
    match expectOperator? ";;" ts with
    | some ts =>
      let (no, ts) ← choices? fuel subject ts
      return (.choice subject ws yes no, ts)
    | none => return (.choice subject ws yes .skip, ← expectWord? "esac" ts)

end

/-- The script that a text holds. Each token takes at most six steps. -/
def Script.ofText? (text : String) : Option Script := do
  let ts ← tokens? text
  match ← list? (6 * ts.length + 6) ts with
  | (s, []) => some s
  | _ => none

end JobBundler.Shell
