import JobBundler.Bundle.Request
import JobBundler.Disk.Change

/-! # Bundlers

A bundler is asked to make the artifacts of a request. What it does to the disk is its own affair.
The two bundlers here show what a build makes of their work. -/

namespace JobBundler

/-- What does the work of a request. -/
abbrev Bundler :=
  BundleRequest → Disk.Action BundleError Unit

/-- The file of the artifact that is made of an entry. -/
def BundleRequest.artifact (r : BundleRequest) (key : String) : Path :=
  r.outDir / s!"{key}.{r.outExtension}"

namespace Bundler

/-- How the bundlers here are called in messages. -/
def standInName : String :=
  "fake"

/-- Writes a line with the key of the entry as each artifact. -/
def standIn : Bundler := fun r =>
  r.entries.keys.forM fun key =>
    (Disk.writeWithDirs (r.artifact key) (.text s!"// bundled {key}\n")).orFail
      (.spawn standInName)

/-- Fails and has said why. -/
def failing (stderr : String) : Bundler := fun _ =>
  throw (.failed standInName "exit status: 1" stderr)

end Bundler
end JobBundler
