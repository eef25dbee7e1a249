import JobBundler.Glob.Search

/-! # What words stand for

When the parameters of a word are replaced by their values, it becomes a list of parts, which keep
where their characters come from. They are put together to one text or to several fields, or are
read as a pattern. -/

namespace JobBundler.Shell

/-- Where a character of a word comes from. -/
inductive Origin where
  /-- From between quotes: it stands for itself. -/
  | quoted
  /-- From the script. -/
  | written
  /-- From a value: a separator ends a field. -/
  | value
  deriving DecidableEq, Repr

inductive Part where
  | char (c : Char) (origin : Origin)
  /-- By quotes there is a field even if nothing stands between them. -/
  | quotes
  /-- Takes that back, as there is no value for them. -/
  | noQuotes
  /-- Ends a field. Between quotes there is another one after it. -/
  | next (quoted : Bool)
  deriving DecidableEq, Repr

namespace Part

/-- The parts of a value. -/
def ofValue (quoted : Bool) (value : String) : List Part :=
  value.toList.map (.char · (if quoted then .quoted else .value))

/-- The parts of several values, each of which is a field. -/
def ofValues (quoted : Bool) : List String → List Part
  | [] => [.noQuotes]
  | [value] => ofValue quoted value
  | value :: values => ofValue quoted value ++ .next quoted :: ofValues quoted values

/-- The part as it is between quotes. -/
def quote : Part → Part
  | char c _ => char c .quoted
  | p => p

/-- The text that parts are when they are not split. -/
def text (ps : List Part) : String :=
  String.ofList (ps.filterMap fun
    | char c _ => some c
    | next _ => some ' '
    | quotes | noQuotes => none)

end Part

/-- A character of a field, and whether it stands for itself. -/
abbrev FieldChar :=
  Char × Bool

/-! ## Fields -/

/-- The separators of the fields of a value when no others are chosen. -/
def standardSeparators : List Char :=
  [' ', '\t', '\n']

/-- Whether a separator is white space. Any number of these count as one, and none at the start of a
value. -/
def isSoft (separator : Char) : Bool :=
  standardSeparators.contains separator

/-- The fields of a word: those that are complete, the last one first, and the one that goes on, its
last character first. -/
structure Fields where
  complete : List (List FieldChar) := []
  current : Option (List FieldChar) := none
  /-- Whether white space has just ended a field. -/
  softly : Bool := false

namespace Fields

/-- Adds a character to the field that goes on. -/
def add (f : Fields) (c : FieldChar) : Fields :=
  { f with current := some (c :: f.current.getD []), softly := false }

/-- Ends the field that goes on. -/
def finish (f : Fields) : Fields :=
  { complete := (f.current.map List.reverse).toList ++ f.complete }

/-- Follows a separator. One that is no white space ends a field even if it is empty. -/
def separate (f : Fields) (separator : Char) : Fields :=
  match f.current with
  | some _ => { f.finish with softly := isSoft separator }
  | none =>
    if isSoft separator then f
    else if f.softly then { f with softly := false }
    else { f with complete := [] :: f.complete }

/-- Adds a part of the word. -/
def step (separators : List Char) (f : Fields) : Part → Fields
  | .char c .value => if separators.contains c then f.separate c else f.add (c, false)
  | .char c origin => f.add (c, origin == .quoted)
  | .quotes => { f with current := some (f.current.getD []) }
  | .noQuotes => { f with current := if f.current = some [] then none else f.current }
  | .next quoted => { f.finish with current := if quoted then some [] else none }

/-- The fields that the parts of a word are. -/
def ofParts (separators : List Char) (ps : List Part) : List (List FieldChar) :=
  (ps.foldl (step separators) {}).finish.complete.reverse

end Fields

/-! ## Patterns -/

/-- The tokens of a pattern, in at most `fuel` steps. Only a character that does not stand for itself
has a meaning. -/
def patternFrom : (fuel : Nat) → List FieldChar → List Glob.Token
  | 0, _ | _, [] => []
  | fuel + 1, ('*', false) :: cs => .anyText :: patternFrom fuel cs
  | fuel + 1, ('?', false) :: cs => .anyChar :: patternFrom fuel cs
  | fuel + 1, ('[', false) :: cs =>
    match Glob.charClass? (cs.map (·.1)) with
    | some (t, rest) => t :: patternFrom fuel (cs.drop (cs.length - rest.length))
    | none => .char '[' :: patternFrom fuel cs
  | fuel + 1, (c, _) :: cs => .char c :: patternFrom fuel cs

/-- The tokens of a pattern. -/
def pattern (cs : List FieldChar) : List Glob.Token :=
  patternFrom cs.length cs

/-- The pattern that the parts of a word are. -/
def patternOf (ps : List Part) : List Glob.Token :=
  pattern (ps.filterMap fun
    | .char c origin => some (c, origin == .quoted)
    | _ => none)

/-- The text without a start that matches the pattern. -/
def withoutStart (ts : List Glob.Token) (longest : Bool) (cs : List Char) : List Char :=
  let sizes := List.range (cs.length + 1)
  let sizes := if longest then sizes.reverse else sizes
  match sizes.find? fun n => Glob.accepts ts (cs.take n) with
  | some n => cs.drop n
  | none => cs

/-- The text without an end that matches the pattern. -/
def withoutEnd (ts : List Glob.Token) (longest : Bool) (cs : List Char) : List Char :=
  let sizes := List.range (cs.length + 1)
  let sizes := if longest then sizes else sizes.reverse
  match sizes.find? fun n => Glob.accepts ts (cs.drop n) with
  | some n => cs.take n
  | none => cs

/-! ## Names of files -/

/-- The names in a directory that a pattern matches, in order. A name with a dot in front is matched
only by a pattern that has one. -/
def namesMatching (d : Disk) (directory : Path) (ts : List Glob.Token) : List String :=
  (Glob.namesIn d directory).filter fun name =>
    Glob.accepts ts name.toList &&
      (name.toList.head? != some '.' || ts.head? = some (.char '.'))

/-- The texts that go on with `start` by one component of a pattern after the other. -/
def filesFrom (d : Disk) (start : String) : List (List Glob.Token) → List String
  | [] => if d.contains ⟨start⟩ then [start] else []
  | ts :: rest =>
    let separator := if rest.isEmpty then "" else "/"
    match Glob.literal? ts with
    | some name => filesFrom d (start ++ String.ofList name ++ separator) rest
    | none =>
      let directory : Path := ⟨if start.isEmpty then "." else start⟩
      (namesMatching d directory ts).flatMap fun name =>
        filesFrom d (start ++ name ++ separator) rest

/-- The components of a pattern between its separators. -/
def splitComponents : List FieldChar → List (List FieldChar)
  | [] => [[]]
  | (c, itself) :: cs =>
    match splitComponents cs with
    | first :: rest => if c = '/' then [] :: first :: rest else ((c, itself) :: first) :: rest
    | [] => [[(c, itself)]]

/-- The texts that a field stands for: the names of the files that it matches, if there are any. -/
def Fields.expand (d : Disk) (field : List FieldChar) : List String :=
  let text := String.ofList (field.map (·.1))
  if field.any fun (c, itself) => !itself && (c == '*' || c == '?' || c == '[') then
    match filesFrom d "" ((splitComponents field).map pattern) with
    | [] => [text]
    | texts => texts
  else [text]

end JobBundler.Shell
