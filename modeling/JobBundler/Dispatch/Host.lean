import JobBundler.Dispatch.Outcome
import JobBundler.Manifest.Basic
import JobBundler.Workspace

/-! # Hosts

A host loads an artifact, runs a job of it, and reports the outcome. -/

namespace JobBundler

/-- What a host is to load and run. -/
structure LoadRequest where
  artifact : Path
  jobId : String
  /-- How the manifest says that the job is taken from the artifact, if it lists the job. -/
  mode : Option ManifestMode
  /-- The method that runs the job. -/
  entryMethod : String
  deriving DecidableEq, Repr

inductive HostError where
  /-- The host cannot be started. -/
  | spawn (command : String) (error : FileError)
  | noOutcome (status : String)
  /-- The report is no outcome. -/
  | unreadable
  /-- The report cannot be read. -/
  | file (error : FileError)
  deriving DecidableEq, Repr

def HostError.message : HostError → String
  | spawn command error => s!"failed to start module host \x60{command}\x60: {error.message}"
  | noOutcome status => s!"module host exited ({status}) without reporting an outcome"
  | unreadable => "module host reported an unreadable outcome: not an outcome"
  | file error => s!"module host I/O failed: {error.message}"

/-- What loads artifacts and runs jobs. -/
abbrev Host :=
  LoadRequest → Workspace.Action HostError Outcome

/-- The outcomes of artifacts that are known beforehand. All others have no job. -/
def Host.scripted (outcomes : List (Path × Outcome)) : Host := fun r =>
  return ((outcomes.find? (·.1.same r.artifact)).map (·.2)).getD .noImplementation

end JobBundler
