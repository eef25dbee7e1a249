import JobBundler.Disk.Change

/-! # Replacing a file

A file is replaced by way of a temporary file beside it: the new text is written there in full, and
then the temporary file takes the name of the old one. A step changes nothing but the temporary file
until the last one, so whoever reads the target finds the old text or the new one. -/

namespace JobBundler.Disk

structure Replacement where
  target : Path
  temporary : Path
  text : String
  deriving DecidableEq, Repr

namespace Replacement

inductive Step where
  /-- Makes the temporary file, or empties it. -/
  | create
  | fill
  /-- Waits until the temporary file is safe on the medium. -/
  | sync
  | rename
  deriving DecidableEq, Repr

/-- The steps in order. -/
def steps : List Step :=
  [.create, .fill, .sync, .rename]

/-- What a step does to a disk. -/
def apply (r : Replacement) : Step → Disk → Except FileError Disk
  | .create => write r.temporary (.text "")
  | .fill => write r.temporary (.text r.text)
  | .sync => .ok
  | .rename => renameFile r.temporary r.target

/-- Does the steps up to the first that fails. -/
def run (r : Replacement) (steps : List Step) : Action FileError Unit :=
  steps.forM fun s => .change (r.apply s)

/-- Removes the temporary file, if it can be. -/
def cleanUp (r : Replacement) : Action FileError Unit := do
  let _ ← Action.attempt (.change (removeFile r.temporary))

/-- Replaces the target. No temporary file is left when a step fails. -/
def perform (r : Replacement) : Action FileError Unit := do
  match ← Action.attempt (r.run steps) with
  | .ok _ => return
  | .error e =>
    r.cleanUp
    throw e

end Replacement
end JobBundler.Disk
