import JobBundler.Disk.Basic

/-! # Reading and changing files

A change of one node either fails and leaves the disk as it is, or does all that it is to do. An
`Action` is a sequence of changes: what it has done before it fails stays done. For `write` this leaves
something out, since a file is emptied before it is filled. Where a failure in between counts, these are
changes of their own, as in a `Replacement`. -/

namespace JobBundler.Disk

/-- The content of a file. -/
def read (d : Disk) (p : Path) : Except FileError Content := do
  match ← d.nodeAt p with
  | .directory => throw .isDirectory
  | .file f => return f.content

/-- The text of a file. -/
def readText (d : Disk) (p : Path) : Except FileError String := do
  match ← d.read p with
  | .binary _ => throw .notText
  | .text s => return s

/-- Gives a file a content. A file that is already there keeps its mode. -/
def write (p : Path) (content : Content) (d : Disk) : Except FileError Disk := do
  let l ← d.locate p
  match ending p, d.node? l with
  | .name, none => return d.put l (.file { content })
  | .name, some (.file f) => return d.put l (.file { f with content })
  | _, _ => throw .isDirectory

/-- Lets a file be run as a program. -/
def makeExecutable (p : Path) (d : Disk) : Except FileError Disk := do
  match ← d.nodeAt p with
  | .directory => return d
  | .file f => return d.put (← d.locate p) (.file { f with executable := true })

/-- Makes a directory in one that exists. -/
def makeDir (p : Path) (d : Disk) : Except FileError Disk := do
  let l ← d.locate p
  match ending p, d.node? l with
  | .dots, _ | _, some _ => throw .alreadyExists
  | _, none => return d.put l .directory

/-- Removes a file. -/
def removeFile (p : Path) (d : Disk) : Except FileError Disk := do
  match ← d.nodeAt p with
  | .directory => throw .isDirectory
  | .file _ => return d.remove (← d.locate p)

/-- Gives a file another path. A file that is there already is replaced. -/
def renameFile (source target : Path) (d : Disk) : Except FileError Disk := do
  let l ← d.locate source
  let m ← d.locate target
  match ending target with
  | .dots => throw .busy
  | last =>
    match ← d.nodeAt source with
    | .directory => throw .isDirectory
    | .file f =>
      if last = .separator then throw .notDirectory
      match d.node? m with
      | some .directory => throw .isDirectory
      | _ => return if l = m then d else (d.remove l).put m (.file f)

/-! ## Sequences of changes -/

/-- What changes a disk and may fail. -/
abbrev Action (ε α : Type) :=
  ExceptT ε (StateM Disk) α

namespace Action

variable {ε ε' α : Type}

/-- Looks at the disk. -/
def view (f : Disk → Except ε α) : Action ε α := do
  match f (← get) with
  | .ok a => return a
  | .error e => throw e

/-- Changes the disk, unless the change fails. -/
def change (f : Disk → Except ε Disk) : Action ε Unit := do
  match f (← get) with
  | .ok d => set d
  | .error e => throw e

/-- The outcome of an action, whether it fails or not. -/
def attempt (x : Action ε α) : Action ε' (Except ε α) :=
  ExceptT.mk (Except.ok <$> x.run)

/-- The action with another account of its failure. -/
def orFail (x : Action ε α) (f : ε → ε') : Action ε' α :=
  ExceptT.mk (Except.mapError f <$> x.run)

end Action

/-- The path and the directories above it, each after what it holds. -/
def ancestors (p : Path) : List Path :=
  upTo p.text.length p
where
  upTo : Nat → Path → List Path
    | 0, p => [p]
    | n + 1, p => p :: (p.parent?.map (upTo n)).getD []

/-- Makes the directory at the first path, and before it those that are missing above. -/
def makeDirsUpTo : List Path → Action FileError Unit
  | [] => throw .notFound
  | p :: above => do
    if p.text.isEmpty then return
    match ← Action.attempt (.change (makeDir p)) with
    | .ok _ => return
    | .error .notFound =>
      makeDirsUpTo above
      settle p
    | .error e => if (← get).isDirectory p then return else throw e
where
  /-- Makes a directory unless it is there by now. -/
  settle (p : Path) : Action FileError Unit := do
    match ← Action.attempt (.change (makeDir p)) with
    | .ok _ => return
    | .error e => if (← get).isDirectory p then return else throw e

/-- Makes a directory and those above it, as far as they are missing. -/
def makeDirs (p : Path) : Action FileError Unit :=
  makeDirsUpTo (ancestors p)

/-- Writes a file in a directory that is made if it is missing. -/
def writeWithDirs (p : Path) (content : Content) : Action FileError Unit := do
  if let some parent := p.parent? then makeDirs parent
  .change (write p content)

end JobBundler.Disk
