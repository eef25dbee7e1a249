import JobBundler.Shell.Tool.Basic

/-! # Tests of conditions -/

namespace JobBundler.Shell.Tool

/-- The number that a text is, or a complaint. -/
def numberOf (text : String) : Except String Int :=
  match text.toInt? with
  | some n => .ok n
  | none => .error s!"Illegal number: {text}"

/-- Whether the numbers that two texts are compare so. -/
def compareNumbers (a b : String) (f : Int → Int → Bool) : Except String Bool := do
  return f (← numberOf a) (← numberOf b)

/-- Whether the path denotes a program. -/
def isExecutable (d : Disk) (p : Path) : Bool :=
  match d.nodeAt p with
  | .ok (.file f) => f.executable
  | .ok .directory => true
  | .error _ => false

/-- Whether a condition about one text holds. -/
def holdsOne (d : Disk) (operator a : String) : Except String Bool :=
  match operator with
  | "-n" => .ok !a.isEmpty
  | "-z" => .ok a.isEmpty
  | "-f" => .ok (d.isFile ⟨a⟩)
  | "-d" => .ok (d.isDirectory ⟨a⟩)
  | "-e" | "-r" | "-w" => .ok (d.contains ⟨a⟩)
  | "-x" => .ok (isExecutable d ⟨a⟩)
  | "-s" => .ok (d.isDirectory ⟨a⟩ || (d.read ⟨a⟩).toOption.any (0 < ·.bytes.size))
  | "-L" | "-h" | "-t" => .ok false
  | _ => .error s!"{a}: argument expected"

/-- Whether a condition about two texts holds. -/
def holdsTwo (a operator b : String) : Except String Bool :=
  match operator with
  | "=" => .ok (a == b)
  | "!=" => .ok (a != b)
  | "-eq" => compareNumbers a b (· == ·)
  | "-ne" => compareNumbers a b (· != ·)
  | "-lt" => compareNumbers a b (· < ·)
  | "-le" => compareNumbers a b (· ≤ ·)
  | "-gt" => compareNumbers a b (· > ·)
  | "-ge" => compareNumbers a b (· ≥ ·)
  | _ => .error s!"{operator}: unexpected operator"

/-- Whether a condition without `-a` and `-o` holds. -/
def holdsSimple (d : Disk) : List String → Except String Bool
  | [] => .ok false
  | [a] => .ok !a.isEmpty
  | ["!", a] => .ok a.isEmpty
  | [operator, a] => holdsOne d operator a
  | ["!", a, b] => do return !(← holdsSimple d [a, b])
  | [a, operator, b] => holdsTwo a operator b
  | "!" :: rest => do return !(← holdsSimple d rest)
  | a :: _ => .error s!"{a}: unexpected operator"

/-- The arguments between those that are the separator. -/
def splitAt (separator : String) : List String → List (List String)
  | [] => [[]]
  | a :: as =>
    match splitAt separator as with
    | first :: rest => if a = separator then [] :: first :: rest else (a :: first) :: rest
    | [] => [[a]]

/-- Whether the condition of a test holds. -/
def holds (d : Disk) (arguments : List String) : Except String Bool :=
  if arguments.length ≤ 3 then holdsSimple d arguments
  else (splitAt "-o" arguments).anyM fun some => (splitAt "-a" some).allM (holdsSimple d)

/-- What a test leaves. -/
def tested (name : String) (arguments : List String) : StateM Disk Output := do
  return match holds (← get) arguments with
    | .ok yes => { status := if yes then 0 else 1 }
    | .error complaint => .failure 2 s!"{name}: {complaint}"

def test : Tool := fun arguments _ =>
  tested "test" arguments

/-- The test that is written between brackets. -/
def bracket : Tool := fun arguments _ => do
  match arguments.getLast? with
  | some "]" => tested "[" arguments.dropLast
  | _ => return .failure 2 "[: missing ]"

end JobBundler.Shell.Tool
