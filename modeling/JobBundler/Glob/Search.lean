import JobBundler.Disk.Basic
import JobBundler.Glob.Pattern

/-! # Files that match a pattern

A search starts in the working directory, or at the root for an absolute pattern, and follows the
components of the pattern one by one. Paths are built as they are found: below the working directory
they start with a name, and what the pattern says literally is kept, `..` included. -/

namespace JobBundler.Glob

/-- The path of an entry of a directory. -/
def entry (directory : Path) (name : String) : Path :=
  if directory.same ⟨"."⟩ then ⟨name⟩ else directory / name

/-- The names in a directory in their order; none in anything else. -/
def namesIn (d : Disk) (p : Path) : List String :=
  match d.nodeAt p, d.locate p with
  | .ok .directory, .ok l => d.names l
  | _, _ => []

/-- The paths of all that is below a directory, each with its name. A directory comes before what is in
it. -/
def pathsBelow (d : Disk) (p : Path) : List (Path × String) :=
  match d.nodeAt p, d.locate p with
  | .ok .directory, .ok l =>
    (d.below l).filterMap fun (names, _) =>
      names.getLast?.map fun name => (names.foldl entry p, name)
  | _, _ => []

/-- Whether a directory has an entry of the name. Every directory has the entries `.` and `..`. -/
def hasEntry (d : Disk) (p : Path) (name : String) : Bool :=
  if name = "." ∨ name = ".." then d.isDirectory p else d.contains (entry p name)

/-- The entries `..` and `.`, which are matched only by a component that starts with a dot. -/
def dotEntries (ts : List Token) : List String :=
  if ts.head? = some (.char '.') then ["..", "."].filter (accepts ts ·.toList) else []

/-- Whether a component stands for a name, as it does after `**`. -/
def Component.acceptsName : Component → String → Bool
  | literal name, other => name == other
  | wild ts, name => accepts ts name.toList
  | directories, _ => false

/-- The paths from a directory on that match the components: first those through the entries `..` and
`.`, then those through the names of the directory in their order. -/
def search (d : Disk) : List Component → Path → List Path
  | [], p => [p]
  | .literal name :: cs, p => if hasEntry d p name then search d cs (entry p name) else []
  | .wild ts :: cs, p =>
    let dots := if d.isDirectory p then dotEntries ts else []
    let names := (namesIn d p).filter (accepts ts ·.toList)
    dots.flatMap (fun name => search d cs (p / name)) ++
      names.flatMap fun name => search d cs (entry p name)
  | [.directories], p => ((pathsBelow d p).map (·.1)).filter d.isDirectory
  | .directories :: c :: cs, p =>
    ((pathsBelow d p).filter (c.acceptsName ·.2)).flatMap fun e => search d cs e.1

/-- The files that match a pattern. A pattern that ends in a separator matches directories only. -/
def files (d : Disk) (pattern : String) : Except PatternError (List Path) := do
  let cs ← components pattern
  let start : Path := if (Path.mk pattern).isAbsolute then ⟨"/"⟩ else ⟨"."⟩
  if pattern.toList.getLast? = some '/' then return []
  return (search d cs start).filter d.isFile

end JobBundler.Glob
