import JobBundler.Disk.Replacement
import JobBundler.Manifest.Text

/-! # Manifests on disk

A manifest is read as a whole, and written by replacing the file, so a reader never sees a part of
one. -/

namespace JobBundler

inductive ManifestError where
  | unreadable (path : Path) (error : FileError)
  /-- The text is no manifest. -/
  | malformed (path : Path)
  | unwritable (path : Path) (error : FileError)
  deriving DecidableEq, Repr

def ManifestError.message : ManifestError → String
  | unreadable path error => s!"failed to read manifest {path.text}: {error.message}"
  | malformed path => s!"malformed manifest {path.text}: not a manifest"
  | unwritable path error => s!"failed to write manifest {path.text}: {error.message}"

namespace Manifest

/-- The manifest in a file, if there is such a file. -/
def load (path : Path) (d : Disk) : Except ManifestError (Option Manifest) :=
  match d.readText path with
  | .error .notFound => .ok none
  | .error e => .error (.unreadable path e)
  | .ok text =>
    match ofText? text with
    | some m => .ok (some m)
    | none => .error (.malformed path)

/-- The replacement of a file by the manifest. -/
def replacement (m : Manifest) (path : Path) : Disk.Replacement :=
  { target := path, temporary := path.withExtension "json.tmp", text := m.render }

/-- Writes the manifest to a file, in a directory that is made if it is missing. -/
def save (m : Manifest) (path : Path) : Disk.Action ManifestError Unit :=
  Disk.Action.orFail (do
    if let some parent := path.parent? then Disk.makeDirs parent
    (m.replacement path).perform) (.unwritable path)

end Manifest
end JobBundler
