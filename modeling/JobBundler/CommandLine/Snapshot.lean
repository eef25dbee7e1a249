import JobBundler.Disk.Change
import JobBundler.Json.Reader

/-! # Snapshots

The files of a project as one text, which is a JSON object with the text of each file by its path.
-/

namespace JobBundler.Snapshot

/-- The directory of a project that is made of a snapshot. -/
def projectDir : Disk.Location :=
  ["tmp", "project"]

/-- Writes the files that the members of an object are. -/
def writeAll : List (String × Json) → Disk.Action FileError Unit
  | [] => return
  | (path, .string (some text)) :: files => do
    Disk.writeWithDirs ⟨path⟩ (.text text)
    writeAll files
  | _ => throw .notText

/-- The disk with the files of a snapshot in its working directory. -/
def ofText? (text : String) : Option Disk := do
  match ← Json.ofText? text with
  | .object members =>
    let (result, d) := (writeAll (← Json.names? members)).run (.bare projectDir)
    if result.toBool then some d else none
  | _ => none

end JobBundler.Snapshot
