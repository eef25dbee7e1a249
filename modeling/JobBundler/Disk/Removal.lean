import JobBundler.Disk.Change

/-! # Removing a directory

A directory with something in it cannot be removed, so all that is below it is removed first, one node after
the other, each after what is in it. Any of these removals may fail, and then those before it stay done. -/

namespace JobBundler.Disk

/-- Removes what is at a location: a file, or a directory with nothing in it. -/
def unlink (l : Location) (d : Disk) : Except FileError Disk :=
  match d.node? l with
  | none => .error .notFound
  | some (.file _) => .ok (d.remove l)
  | some .directory =>
    if l = [] then .error .busy
    else if (d.below l).isEmpty then .ok (d.remove l)
    else .error .directoryNotEmpty

/-- Removes a directory with nothing in it. -/
def removeDir (p : Path) (d : Disk) : Except FileError Disk := do
  match ← d.nodeAt p with
  | .directory => unlink (← d.locate p) d
  | .file _ => throw .notDirectory

/-- What is below a location, each before the directory that it is in. -/
def contents (d : Disk) (l : Location) : List Location :=
  ((d.below l).map fun e => l ++ e.1).reverse

/-- The action, which counts as done when it finds nothing to do it to. -/
def Action.unlessMissing (x : Action FileError Unit) : Action FileError Unit := do
  match ← attempt x with
  | .ok _ | .error .notFound => return
  | .error e => throw e

/-- Removes a directory and all that is in it, up to the first node that cannot be removed. The directory
itself is looked for again, and stays where it is if its path led through something in it. -/
def removeAll (p : Path) : Action FileError Unit := do
  match ← Action.view (·.nodeAt p) with
  | .file _ => throw .notDirectory
  | .directory =>
    let l ← Action.view (·.locate p)
    ((← get).contents l).forM fun m => (Action.change (unlink m)).unlessMissing
    (Action.change (removeDir p)).unlessMissing

/-- The disk without a directory and all that is in it, if all of it can be removed. -/
def removeTree (p : Path) (d : Disk) : Except FileError Disk :=
  let (result, d') := (removeAll p).run d
  result.map fun _ => d'

end JobBundler.Disk
