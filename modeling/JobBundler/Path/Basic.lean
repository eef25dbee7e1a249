/-! # Paths

A path is a text, shown as it was written. What it denotes is a list of components: repeated and
trailing separators do not count, nor does a `.` anywhere but at the start. Comparison works on
components, while `join`, `parent?` and the functions on extensions change the text and keep the
rest of it as written. -/

namespace JobBundler

structure Path where
  text : String
  deriving DecidableEq, Repr, Inhabited

namespace Path

/-- What a path is made of. -/
inductive Component where
  /-- The separator at the start of an absolute path. -/
  | root
  /-- A `.` at the start of a relative path. -/
  | current
  /-- `..` -/
  | parent
  | normal (name : String)
  deriving DecidableEq, Repr

namespace Component

def text : Component → String
  | root => "/"
  | current => "."
  | parent => ".."
  | normal name => name

/-- Components of different kinds are ordered by kind, names by their characters. -/
def compare : Component → Component → Ordering
  | normal a, normal b => compareOfLessAndEq a b
  | a, b => compareOfLessAndEq (rank a) (rank b)
where
  rank : Component → Nat
    | root => 0
    | current => 1
    | parent => 2
    | normal _ => 3

end Component

/-- The pieces between separators; always one more than there are separators. -/
def segments : List Char → List (List Char)
  | [] => [[]]
  | c :: cs =>
    if c = '/' then [] :: segments cs
    else match segments cs with
      | s :: ss => (c :: s) :: ss
      | [] => [[c]]

/-- Whether a segment adds no component. -/
def isSkipped (segment : List Char) : Bool :=
  segment.isEmpty || segment == ['.']

/-- The component of a segment after the start of a path. -/
def componentOf? (segment : List Char) : Option Component :=
  if isSkipped segment then none
  else if segment = ['.', '.'] then some .parent
  else some (.normal (String.ofList segment))

/-- A path cut into the separator or the `.` at its start and the segments after it. -/
structure Parts where
  lead : Option Component
  segments : List (List Char)

def parts (p : Path) : Parts :=
  match p.text.toList with
  | '/' :: cs => ⟨some .root, segments cs⟩
  | '.' :: '/' :: cs => ⟨some .current, [] :: segments cs⟩
  | ['.'] => ⟨some .current, [[]]⟩
  | cs => ⟨none, segments cs⟩

/-- The components in order. -/
def components (p : Path) : List Component :=
  p.parts.lead.toList ++ p.parts.segments.filterMap componentOf?

/-- Whether the path starts at the root. -/
def isAbsolute (p : Path) : Bool :=
  p.text.toList.head? == some '/'

/-- Whether the paths have the same components. -/
def same (p q : Path) : Bool :=
  p.components == q.components

/-- The order of paths, component by component. -/
def compare (p q : Path) : Ordering :=
  compareLex p.components q.components
where
  compareLex : List Component → List Component → Ordering
    | [], [] => .eq
    | [], _ :: _ => .lt
    | _ :: _, [] => .gt
    | a :: as, b :: bs => (a.compare b).then (compareLex as bs)

/-- The path `q` as seen from the directory `p`. An absolute `q` stands for itself; otherwise one
separator is put between the two unless `p` is empty or ends in one. -/
def join (p q : Path) : Path :=
  if q.isAbsolute then q
  else if p.text.isEmpty || p.text.toList.getLast? == some '/' then ⟨p.text ++ q.text⟩
  else ⟨p.text ++ "/" ++ q.text⟩

instance : HDiv Path String Path where
  hDiv p name := p.join ⟨name⟩

/-- The path of the components. -/
def ofComponents (cs : List Component) : Path :=
  cs.foldl (fun p c => p / c.text) ⟨""⟩

/-- The segments without the skipped ones at the end. -/
def trimSegments (ss : List (List Char)) : List (List Char) :=
  (ss.reverse.dropWhile isSkipped).reverse

/-- The text of a start and the segments after it. -/
def ofParts (lead : Option Component) (ss : List (List Char)) : Path :=
  ⟨(lead.map (·.text)).getD "" ++ String.ofList (List.intercalate ['/'] ss)⟩

/-- The path without its last component; the root and the empty path have none. -/
def parent? (p : Path) : Option Path :=
  match p.parts.lead, (trimSegments p.parts.segments).reverse with
  | lead, _ :: init => some (ofParts lead (trimSegments init.reverse))
  | some .current, [] => some ⟨""⟩
  | _, [] => none

/-- The last component, when it is a name. -/
def fileName? (p : Path) : Option String :=
  match p.components.getLast? with
  | some (.normal name) => some name
  | _ => none

/-- A file name cut before its last dot into the stem and the extension without the dot. A name
without a dot has no extension, and neither has one whose only dot stands first. -/
def splitExtension (name : String) : String × Option String :=
  let cs := name.toList
  let extension := (cs.reverse.takeWhile (· ≠ '.')).reverse
  let stem := cs.take (cs.length - extension.length - 1)
  if stem.isEmpty then (name, none) else (String.ofList stem, some (String.ofList extension))

/-- The extension of the file name. -/
def extension? (p : Path) : Option String :=
  p.fileName?.bind fun name => (splitExtension name).2

/-- The text up to the end of the file name's stem, and the extension after a dot, unless that is
empty. A path without a file name stays as it is. -/
def setExtension (p : Path) (extension : String) : Path :=
  match p.fileName?, (trimSegments p.parts.segments).reverse with
  | some name, _ :: init =>
    let stem := (splitExtension name).1
    let file := if extension.isEmpty then stem else stem ++ "." ++ extension
    ofParts p.parts.lead (init.reverse ++ [file.toList])
  | _, _ => p

/-- The path with another extension. The old one is cut off the text first, so a name that is then
no file name any more, as `..x` without its extension, gets no new one. -/
def withExtension (p : Path) (extension : String) : Path :=
  match p.extension? with
  | none => p.setExtension extension
  | some old =>
    let cs := p.text.toList
    setExtension ⟨String.ofList (cs.take (cs.length - old.length))⟩ extension

/-- What is left of the components after `base`, which has to be their start. -/
def afterComponents? : (base cs : List Component) → Option (List Component)
  | [], cs => some cs
  | _ :: _, [] => none
  | b :: base, c :: cs => if b = c then afterComponents? base cs else none

/-- The segments after the first `n` components. -/
def dropComponents : (n : Nat) → List (List Char) → List (List Char)
  | 0, ss => ss.dropWhile isSkipped
  | _ + 1, [] => []
  | n + 1, s :: ss => if isSkipped s then dropComponents (n + 1) ss else dropComponents n ss

/-- The path relative to `base`, when the components of `base` are its first ones. -/
def stripPrefix? (p base : Path) : Option Path :=
  (afterComponents? base.components p.components).map fun _ =>
    match base.components.length, p.parts.lead with
    | 0, lead => ofParts lead (trimSegments p.parts.segments)
    | n + 1, some _ => ofParts none (trimSegments (dropComponents n p.parts.segments))
    | n + 1, none => ofParts none (trimSegments (dropComponents (n + 1) p.parts.segments))

/-- The path relative to `root` when it lies under it, else the path. -/
def relativeTo (p root : Path) : Path :=
  (p.stripPrefix? root).getD p

end Path
end JobBundler
