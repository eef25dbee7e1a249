/-! # Arithmetic in shell scripts

Whole numbers with the operations of comparison, addition and multiplication. A condition is one if
it holds, and else zero. -/

namespace JobBundler.Shell.Arithmetic

/-- The operators, from those that bind last to those that bind first. Of two that start alike the
longer one stands in front. -/
def levels : List (List String) :=
  [["||"], ["&&"], ["==", "!="], ["<=", ">=", "<", ">"], ["+", "-"], ["*", "/", "%"]]

def ofBool (b : Bool) : Int :=
  if b then 1 else 0

/-- The result of an operation, unless it divides by zero. -/
def result? (operator : String) (a b : Int) : Option Int :=
  match operator with
  | "||" => some (ofBool (a != 0 || b != 0))
  | "&&" => some (ofBool (a != 0 && b != 0))
  | "==" => some (ofBool (a == b))
  | "!=" => some (ofBool (a != b))
  | "<=" => some (ofBool (a ≤ b))
  | ">=" => some (ofBool (b ≤ a))
  | "<" => some (ofBool (a < b))
  | ">" => some (ofBool (b < a))
  | "+" => some (a + b)
  | "-" => some (a - b)
  | "*" => some (a * b)
  | "/" => if b = 0 then none else some (a.tdiv b)
  | "%" => if b = 0 then none else some (a.tmod b)
  | _ => none

def skipSpace (cs : List Char) : List Char :=
  cs.dropWhile fun c => c == ' ' || c == '\t' || c == '\n'

mutual

/-- The value of an operand of the last level, and the text after it. The value of a name is looked
up. -/
def operand? (value : String → Int) : (fuel : Nat) → List Char → Option (Int × List Char)
  | 0, _ => none
  | fuel + 1, cs =>
    match skipSpace cs with
    | '(' :: cs => do
      let (n, rest) ← level? value fuel levels cs
      match skipSpace rest with
      | ')' :: rest => some (n, rest)
      | _ => none
    | '-' :: cs => (operand? value fuel cs).map fun (n, rest) => (-n, rest)
    | '+' :: cs => operand? value fuel cs
    | '!' :: cs => (operand? value fuel cs).map fun (n, rest) => (ofBool (n == 0), rest)
    | c :: cs =>
      if c.isDigit then
        (String.ofList (c :: cs.takeWhile Char.isDigit)).toInt?.map (·, cs.dropWhile Char.isDigit)
      else if c.isAlpha || c == '_' then
        let isNameChar (c : Char) := c.isAlphanum || c == '_'
        some (value (String.ofList (c :: cs.takeWhile isNameChar)), cs.dropWhile isNameChar)
      else none
    | [] => none

/-- The value of an expression with the operators of the levels, and the text after it. -/
def level? (value : String → Int) : (fuel : Nat) → (levels : List (List String)) → List Char →
    Option (Int × List Char)
  | 0, _, _ => none
  | fuel + 1, [], cs => operand? value fuel cs
  | fuel + 1, operators :: levels, cs => do
    let (n, rest) ← level? value fuel levels cs
    more? value fuel operators levels n rest

/-- The value of an expression that goes on after its first operands. -/
def more? (value : String → Int) : (fuel : Nat) → (operators : List String) →
    (levels : List (List String)) → Int → List Char → Option (Int × List Char)
  | 0, _, _, _, _ => none
  | fuel + 1, operators, levels, n, cs =>
    let cs := skipSpace cs
    match operators.find? (·.toList.isPrefixOf cs) with
    | none => some (n, cs)
    | some operator => do
      let (m, rest) ← level? value fuel levels (cs.drop operator.length)
      more? value fuel operators levels (← result? operator n m) rest

end

/-- The value of an expression. Each character takes at most as many steps as there are levels. -/
def eval? (value : String → Int) (text : String) : Option Int := do
  match ← level? value (10 * text.length + 10) levels text.toList with
  | (n, rest) => if (skipSpace rest).isEmpty then some n else none

end JobBundler.Shell.Arithmetic
