import JobBundler.Build
import JobBundler.Dispatch.Host

/-! # Dispatch

To run a job is to find its artifact and to let a host load it. The manifest names the artifact, and
a job that it does not list is looked for where it would be by itself. A missing artifact is reason
for one rebuild, unless the caller forbids it. -/

namespace JobBundler

inductive RebuildError where
  | build (error : BuildError)
  | other (message : String)
  deriving DecidableEq, Repr

def RebuildError.message : RebuildError → String
  | build error => error.message
  | other message => message

/-- What makes the artifacts anew. -/
abbrev Rebuild :=
  Workspace.Action RebuildError Unit

namespace Rebuild

/-- Writes the files. -/
def writing (files : List (Path × String)) : Rebuild :=
  files.forM fun (path, text) =>
    .onDisk (Disk.writeWithDirs path (.text text)) fun e => .other e.message

def failing (message : String) : Rebuild :=
  throw (.other message)

end Rebuild

inductive DispatchError where
  | manifest (error : ManifestError)
  | invalidId (error : InvalidName)
  | missingArtifact (id artifact : String)
  /-- The artifact is missing after a rebuild. -/
  | stillMissing (id artifact : String)
  | rebuild (error : RebuildError)
  | noImplementation (id artifact : String)
  | noEntryPoint (id method : String)
  | registryWithoutGroup (id artifact : String)
  | failed (id message : String)
  | host (error : HostError)
  deriving DecidableEq, Repr

def DispatchError.message : DispatchError → String
  | manifest error => error.message
  | invalidId error => error.message
  | missingArtifact id artifact =>
    s!"no artifact for job {Text.quoted id} at {artifact}\nRun: ej build"
  | stillMissing id artifact =>
    s!"artifact for job {Text.quoted id} still missing at {artifact} after rebuilding"
  | rebuild error => s!"rebuild failed: {error.message}"
  | noImplementation id artifact =>
    s!"artifact {artifact} has no job implementation for {Text.quoted id}"
  | noEntryPoint id method => s!"job {Text.quoted id} has no {method}() entry point"
  | registryWithoutGroup id artifact =>
    s!"artifact {artifact} exports a job registry " ++
      s!"but the manifest does not list job {Text.quoted id} in group mode"
  | failed id message => s!"job {Text.quoted id} failed:\n{message}"
  | host error => error.message

/-- Where the artifact of a job is to be. -/
structure Resolved where
  /-- Relative to the output directory. -/
  artifactPath : String
  file : Path
  /-- The entry of the manifest, if the job is listed. -/
  entry : Option ManifestEntry
  deriving DecidableEq, Repr

/-- A workspace with what a dispatcher has asked of others. -/
structure Journal where
  workspace : Workspace
  /-- How many times a rebuild was asked for. -/
  rebuilds : Nat := 0
  /-- The requests to the host, the first one first. -/
  loads : List LoadRequest := []
  deriving DecidableEq

structure Dispatcher where
  config : Config
  host : Host
  rebuild : Rebuild

namespace Dispatcher

/-- What a dispatcher does, which may fail. -/
abbrev Action (α : Type) :=
  ExceptT DispatchError (StateM Journal) α

/-- Works on the workspace. -/
def work {ε α : Type} (x : Workspace.Action ε α) (f : ε → DispatchError) : Action α := do
  let j ← get
  let (r, workspace) := x.run j.workspace
  set { j with workspace }
  match r with
  | .ok a => return a
  | .error e => throw (f e)

/-- Looks at the disk. -/
def view {α : Type} (x : Disk → Except DispatchError α) : Action α :=
  work (.view x fun e => e) fun e => e

/-- The entry of the manifest for a job. -/
def manifestEntry (c : Config) (id : String) (d : Disk) :
    Except DispatchError (Option ManifestEntry) :=
  match Manifest.load c.manifestPath d with
  | .ok m => .ok (m.bind (·.find? id))
  | .error e => .error (.manifest e)

/-- Where the artifact of a job is to be. The id is checked first, so no path that is made of it
leaves the output directory. -/
def resolve (c : Config) (id : String) (d : Disk) : Except DispatchError Resolved := do
  let id ← (JobId.parse id).mapError .invalidId
  let entry ← manifestEntry c id.text d
  let artifactPath := match entry with
    | some e => e.artifactPath
    | none => jobArtifactPath id.text c.artifactExt
  return { artifactPath, file := c.artifactFile artifactPath, entry }

/-- Resolves a job and says whether its artifact is there. -/
def look (c : Config) (id : String) (d : Disk) : Except DispatchError (Resolved × Bool) := do
  let r ← resolve c id d
  return (r, d.isFile r.file)

/-- Asks for a rebuild. -/
def askRebuild (p : Dispatcher) : Action Unit := do
  modify fun j => { j with rebuilds := j.rebuilds + 1 }
  work p.rebuild .rebuild

/-- Resolves a job, with one rebuild if its artifact is missing and `noBuild` does not forbid it. -/
def ensureBuilt (p : Dispatcher) (id : String) (noBuild : Bool) : Action Resolved := do
  let (r, present) ← view (look p.config id)
  if present then return r
  if noBuild then throw (.missingArtifact id (p.config.displayArtifact r.artifactPath))
  p.askRebuild
  let (r, present) ← view (look p.config id)
  if present then return r
  throw (.stillMissing id (p.config.displayArtifact r.artifactPath))

/-- Hands a request to the host. -/
def askHost (p : Dispatcher) (r : LoadRequest) : Action Outcome := do
  modify fun j => { j with loads := j.loads ++ [r] }
  work (p.host r) .host

/-- What an outcome means for the run of a job. -/
def conclude (p : Dispatcher) (id : String) (r : Resolved) :
    Outcome → Except DispatchError (Option JobOutput)
  | .completed output => .ok output
  | .noImplementation => .error (.noImplementation id (p.config.displayArtifact r.artifactPath))
  | .noEntryPoint => .error (.noEntryPoint id p.config.entryMethod)
  | .registryWithoutGroup =>
    .error (.registryWithoutGroup id (p.config.displayArtifact r.artifactPath))
  | .failed message => .error (.failed id message)

/-- Runs a job and returns its result. The mode is read from the manifest right before the artifact
is loaded, since a rebuild may have changed it. -/
def dispatch (p : Dispatcher) (id : String) (noBuild : Bool) : Action (Option JobOutput) := do
  let r ← p.ensureBuilt id noBuild
  let entry ← view (manifestEntry p.config id)
  let outcome ← p.askHost
    { artifact := r.file
      jobId := id
      mode := entry.map (·.mode)
      entryMethod := p.config.entryMethod }
  p.conclude id r outcome

end Dispatcher
end JobBundler
