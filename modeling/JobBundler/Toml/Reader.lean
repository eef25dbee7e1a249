import JobBundler.Toml.Lexer
import JobBundler.Toml.Table

/-! # Reading TOML texts

A text is a list of lines, each with a key and its value, or with the header of the table that the
keys after it belong to. Numbers, truth values, dates and arrays of tables are not read: a text that
has them is refused, as no setting has such a value. -/

namespace JobBundler.Toml

/-- The name that a token is as a key. -/
def keyName? : Token → Option String
  | .bare word => some word
  | .string text true => some text
  | _ => none

/-- The dotted key at the front of the tokens, and the tokens after it. -/
def key? : List Token → Option (List String × List Token)
  | t :: .mark '.' :: ts => do
    let name ← keyName? t
    let (names, rest) ← key? ts
    return (name :: names, rest)
  | t :: ts => (keyName? t).map fun name => ([name], ts)
  | [] => none

def skipLineEnds (ts : List Token) : List Token :=
  ts.dropWhile (· == .lineEnd)

mutual

/-- The value at the front of the tokens, read in at most `fuel` steps, and the tokens after it. -/
def value? : (fuel : Nat) → List Token → Option (Value × List Token)
  | _, .string text _ :: ts => some (.string text, ts)
  | fuel + 1, .mark '[' :: ts => (items? fuel ts).map fun (vs, ts) => (.array vs, ts)
  | _, .mark '{' :: .mark '}' :: ts => some (.table .braces [], ts)
  | fuel + 1, .mark '{' :: ts => (members? fuel [] ts).map fun (ms, ts) => (.table .braces ms, ts)
  | _, _ => none

/-- The items of an array up to its end. A comma may stand after the last one. -/
def items? : (fuel : Nat) → List Token → Option (List Value × List Token)
  | 0, _ => none
  | fuel + 1, ts =>
    match skipLineEnds ts with
    | .mark ']' :: ts => some ([], ts)
    | ts => do
      let (v, ts) ← value? fuel ts
      match skipLineEnds ts with
      | .mark ',' :: ts => (items? fuel ts).map fun (vs, ts) => (v :: vs, ts)
      | .mark ']' :: ts => some ([v], ts)
      | _ => none

/-- The members of a table in braces up to its end, after those that have been read. -/
def members? : (fuel : Nat) → Members → List Token → Option (Members × List Token)
  | 0, _, _ => none
  | fuel + 1, ms, ts => do
    match ← key? ts with
    | (key, .mark '=' :: ts) =>
      let (v, ts) ← value? fuel ts
      let ms ← ms.assign key v
      match ts with
      | .mark ',' :: ts => members? fuel ms ts
      | .mark '}' :: ts => some (ms, ts)
      | _ => none
    | _ => none

end

/-- Whether a line ends here. -/
def atLineEnd (ts : List Token) : Bool :=
  ts.head?.all (· == .lineEnd)

/-- The members of a text, read in at most `fuel` steps. Those of the lines before have been read,
and a header has opened the table at the path `here`. -/
def lines? : (fuel : Nat) → (here : List String) → Members → List Token → Option Members
  | _, _, ms, [] => some ms
  | 0, _, _, _ => none
  | fuel + 1, here, ms, .lineEnd :: ts => lines? fuel here ms ts
  | fuel + 1, _, ms, .mark '[' :: ts => do
    match ← key? ts with
    | (path, .mark ']' :: ts) =>
      if atLineEnd ts then lines? fuel path (← ms.openTable path) ts else none
    | _ => none
  | fuel + 1, here, ms, ts => do
    match ← key? ts with
    | (key, .mark '=' :: ts) =>
      let (v, ts) ← value? fuel ts
      if atLineEnd ts then lines? fuel here (← ms.assignIn here key v) ts else none
    | _ => none

/-- The members that a text describes. A byte order mark may stand in front. Each token takes at
most two steps. -/
def ofText? (text : String) : Option Members := do
  let cs := text.toList
  let ts ← tokens? (if cs.head? = some '\ufeff' then cs.tail else cs)
  lines? (2 * ts.length + 2) [] [] ts

end JobBundler.Toml
