import JobBundler.Disk.FileError
import JobBundler.Path.Basic

/-! # Disks

A disk holds directories and files. Each has a location, which is the list of names that lead to it
from the root, and what a path denotes is found by a walk over these names (`walk`). The walk looks
at every directory on the way, so `a/..` denotes nothing where `a` is no directory. `node?_put` and
`node?_remove` say what the two changes do to a disk. -/

namespace JobBundler

inductive Content where
  | text (s : String)
  /-- Bytes that are not UTF-8. -/
  | binary (bytes : List UInt8)
  deriving DecidableEq, Repr

/-- The content that is made of bytes. -/
def Content.ofBytes (bytes : ByteArray) : Content :=
  match String.fromUTF8? bytes with
  | some s => .text s
  | none => .binary bytes.toList

/-- The bytes that make the content. -/
def Content.bytes : Content → ByteArray
  | text s => s.toUTF8
  | binary bytes => ⟨bytes.toArray⟩

structure File where
  content : Content
  /-- Whether the file may be run as a program. -/
  executable : Bool := false
  deriving DecidableEq, Repr

inductive Node where
  | directory
  | file (f : File)
  deriving DecidableEq, Repr

/-- The names that lead from the root to a node. -/
abbrev Disk.Location :=
  List String

structure Disk where
  /-- The nodes below the root. -/
  nodes : List (Disk.Location × Node) := []
  /-- Where relative paths start. -/
  workingDir : Disk.Location := []
  deriving DecidableEq, Repr

namespace Disk

/-- The node at a location. -/
def node? (d : Disk) (l : Location) : Option Node :=
  if l = [] then some .directory else (d.nodes.find? (·.1 == l)).map (·.2)

/-- The disk with a node put at a location. -/
def put (d : Disk) (l : Location) (n : Node) : Disk :=
  { d with nodes := (l, n) :: d.nodes.filter (·.1 != l) }

/-- The disk without the node at a location and all that is below it. -/
def remove (d : Disk) (l : Location) : Disk :=
  { d with nodes := d.nodes.filter fun e => !l.isPrefixOf e.1 }

theorem find?_filter_ne {l m : Location} (h : m ≠ l) (es : List (Location × Node)) :
    (es.filter (·.1 != l)).find? (·.1 == m) = es.find? (·.1 == m) := by
  induction es with
  | nil => rfl
  | cons e es ih =>
    by_cases hl : e.1 = l
    · have : e.1 ≠ m := fun hm => h (hm.symm.trans hl)
      simp [hl, ih, Ne.symm h]
    · by_cases hm : e.1 = m <;> simp [hl, hm, ih, h]

theorem node?_put {l : Location} (hl : l ≠ []) (d : Disk) (n : Node) (m : Location) :
    (d.put l n).node? m = if m = l then some n else d.node? m := by
  by_cases h : m = l
  · subst h
    simp [node?, put, hl]
  · by_cases hm : m = []
    · simp [node?, hm, Ne.symm hl]
    · simp only [node?, put, hm, if_false, h]
      rw [List.find?_cons_of_neg (by simpa using Ne.symm h), find?_filter_ne h]

theorem find?_filter_isPrefixOf (l m : Location) (es : List (Location × Node)) :
    (es.filter fun e => !l.isPrefixOf e.1).find? (·.1 == m) =
      if l.isPrefixOf m then none else es.find? (·.1 == m) := by
  induction es with
  | nil => simp
  | cons e es ih =>
    by_cases hm : e.1 = m
    · subst hm
      by_cases hl : l.isPrefixOf e.1 <;> simp [hl, ih]
    · by_cases hl : l.isPrefixOf e.1 <;> simp [hl, hm, ih]

theorem node?_remove {l : Location} (hl : l ≠ []) (d : Disk) (m : Location) :
    (d.remove l).node? m = if l.isPrefixOf m then none else d.node? m := by
  unfold node? remove
  by_cases hm : m = []
  · obtain ⟨a, as, rfl⟩ := List.exists_cons_of_ne_nil hl
    simp [hm]
  · rw [if_neg hm, if_neg hm, find?_filter_isPrefixOf]
    split <;> rfl

/-- The location of a file that every system has and that holds nothing. -/
def nullDevice : Location :=
  ["dev", "null"]

/-- The directories on the way to a location, that at the location included. -/
def directoriesTo (l : Location) : List (Location × Node) :=
  (List.range l.length).map fun n => (l.take (n + 1), .directory)

/-- A disk with nothing but an empty working directory and the null device. -/
def bare (workingDir : Location) : Disk :=
  { nodes := (nullDevice, .file { content := .text "" }) ::
      (directoriesTo nullDevice.dropLast ++ directoriesTo workingDir)
    workingDir }

/-! ## What a path denotes -/

/-- The names and dots between the separators of a path. -/
def steps (p : Path) : List String :=
  (Path.segments p.text.toList).filterMap fun s =>
    if s.isEmpty then none else some (String.ofList s)

/-- One step from a directory. There is nothing above the root. -/
def step (here : Location) (name : String) : Location :=
  if name = "." then here
  else if name = ".." then here.dropLast
  else here ++ [name]

/-- How many bytes a name may have. -/
def maxNameSize : Nat :=
  255

/-- How many bytes a path may have. -/
def maxPathSize : Nat :=
  4095

/-- The location that the steps lead to. A step can be made from a directory only, by a name that is
not too long; what they end at need not exist. -/
def walk (d : Disk) : (here : Location) → List String → Except FileError Location
  | here, [] => .ok here
  | here, name :: names =>
    match d.node? here with
    | none => .error .notFound
    | some (.file _) => .error .notDirectory
    | some .directory =>
      if name.utf8ByteSize > maxNameSize then .error .nameTooLong
      else d.walk (step here name) names

/-- What a path ends in. -/
inductive Ending where
  | name
  /-- A name with a separator after it, which can only denote a directory. -/
  | separator
  /-- A dot or two, or nothing but the root. -/
  | dots
  deriving DecidableEq, Repr

def ending (p : Path) : Ending :=
  match (steps p).getLast? with
  | none => .dots
  | some name =>
    if name = "." ∨ name = ".." then .dots
    else if p.text.toList.getLast? = some '/' then .separator
    else .name

/-- The location that a path leads to. -/
def locate (d : Disk) (p : Path) : Except FileError Location :=
  if hasNul p.text then .error .nulInPath
  else if p.text.isEmpty then .error .notFound
  else if p.text.utf8ByteSize > maxPathSize then .error .nameTooLong
  else d.walk (if p.isAbsolute then [] else d.workingDir) (steps p)

/-- The node that a path denotes. -/
def nodeAt (d : Disk) (p : Path) : Except FileError Node := do
  match d.node? (← d.locate p), ending p with
  | none, _ => throw .notFound
  | some (.file f), .name => return .file f
  | some (.file _), _ => throw .notDirectory
  | some .directory, _ => return .directory

def isFile (d : Disk) (p : Path) : Bool :=
  match d.nodeAt p with
  | .ok (.file _) => true
  | _ => false

def isDirectory (d : Disk) (p : Path) : Bool :=
  match d.nodeAt p with
  | .ok .directory => true
  | _ => false

/-- Whether the path denotes anything. -/
def contains (d : Disk) (p : Path) : Bool :=
  (d.nodeAt p).toBool

/-- What is below a location, each node with the names that lead to it from there. A directory comes
before what is in it, and what is in a directory is in the order of the names. -/
def below (d : Disk) (l : Location) : List (Location × Node) :=
  let nodes := d.nodes.filterMap fun (m, n) =>
    match l.isPrefixOf? m with
    | none | some [] => none
    | some names => some (names, n)
  nodes.mergeSort fun a b => !decide (b.1 < a.1)

/-- The names in the directory at a location, in their order. -/
def names (d : Disk) (l : Location) : List String :=
  (d.below l).filterMap fun
    | ([name], _) => some name
    | _ => none

/-- All paths below the working directory, in order. Those of directories end in a separator. -/
def listing (d : Disk) : List String :=
  let text (e : Location × Node) : String :=
    "/".intercalate e.1 ++ if e.2 = .directory then "/" else ""
  ((d.below d.workingDir).map text).mergeSort

end Disk
end JobBundler
