import JobBundler.Discovery
import JobBundler.Disk.Removal
import JobBundler.Entry.Plan
import JobBundler.Manifest.Store
import JobBundler.Package
import JobBundler.Workspace

/-! # Builds

A build finds the jobs of a project, writes their entry modules, removes the artifacts of the last
build, lets a bundler make new ones, and records them in the manifest. The bundler is asked once,
after everything that can be checked has been, and the manifest is written last. -/

namespace JobBundler

/-- What was to be done with a file. -/
inductive FileTask where
  | read
  | create
  | write
  | remove
  deriving DecidableEq, Repr

def FileTask.describe : FileTask → String
  | read => "read"
  | create => "create"
  | write => "write"
  | remove => "remove"

inductive BuildError where
  | config (error : ConfigError)
  | discovery (error : DiscoveryError)
  | validation (problems : List Problem)
  | synthesis (error : SynthesisError)
  | bundle (error : BundleError)
  | manifest (error : ManifestError)
  /-- The text is no package description. -/
  | package (path : Path)
  | file (task : FileTask) (path : Path) (error : FileError)
  deriving DecidableEq, Repr

def BuildError.message : BuildError → String
  | config error => error.message
  | discovery error => error.message
  | validation problems => Problem.report problems
  | synthesis error => error.message
  | bundle error => error.message
  | manifest error => error.message
  | package path => s!"failed to parse {path.text}: not a package description"
  | file task path error => s!"failed to {task.describe} {path.text}: {error.message}"

/-- A job and where a build has put it. -/
structure BuiltJob where
  id : JobId
  entry : ManifestEntry
  deriving DecidableEq, Repr

structure BuildReport where
  jobs : List BuiltJob
  manifest : Manifest
  manifestPath : Path
  deriving DecidableEq

namespace Build

/-- The jobs of a project and the entry modules that they need. -/
def plan (c : Config) (d : Disk) : Except BuildError (List Job × List EntryModule) := do
  c.validate.mapError .config
  let found ← (discover c d).mapError .discovery
  let jobs ← (validate c.mode c.root found.candidates).mapError .validation
  let entries ← (planEntries c found.files jobs).mapError .synthesis
  return (jobs, entries)

/-- Writes an entry module, in a directory that is made if it is missing. -/
def writeEntry (e : EntryModule) : Disk.Action BuildError Unit := do
  if let some parent := e.path.parent? then
    (Disk.makeDirs parent).orFail (.file .create parent)
  (Disk.Action.change (Disk.write e.path (.text e.text))).orFail (.file .write e.path)

/-- Writes the entry modules, each whatever becomes of the others. The first failure counts. -/
def writeEntries (es : List EntryModule) : Disk.Action BuildError Unit := do
  let results ← es.mapM fun e => Disk.Action.attempt (writeEntry e)
  results.forM fun r => ExceptT.mk (pure r)

/-- The names of the packages that a project depends on. -/
def dependencies (root : Path) (d : Disk) : Except BuildError (List String) :=
  let path := root / Package.fileName
  match d.readText path with
  | .error .notFound => .ok []
  | .error e => .error (.file .read path e)
  | .ok text =>
    match Package.dependencies? text with
    | some names => .ok names
    | none => .error (.package path)

/-- Removes a directory and all that is in it, if it is there. -/
def removeStale (path : Path) : Disk.Action BuildError Unit :=
  (Disk.removeAll path).unlessMissing.orFail (.file .remove path)

/-- The directories of artifacts below the output directory. -/
def artifactDirs : List String :=
  ["jobs", "groups"]

/-- Removes the artifacts of earlier builds. -/
def clean (outPath : Path) : Disk.Action BuildError Unit :=
  artifactDirs.forM fun dir => removeStale (outPath / dir)

/-- What the bundler is asked to do. -/
def request (c : Config) (es : List EntryModule) (forceInlined : List String) : BundleRequest :=
  { entries := .ofList (es.map fun e => (e.key, e.path))
    outDir := c.outPath
    platform := c.platform
    target := c.target
    externals := c.externals
    forceInlined
    outExtension := c.artifactExt
    workingDir := c.root }

/-- The job with its entry in the manifest. -/
def record (c : Config) (j : Job) : BuiltJob :=
  { id := j.id
    entry := match j.group with
      | some name => .group name c.artifactExt
      | none => .single j.id c.artifactExt }

/-- The report on a build of the jobs. -/
def report (c : Config) (js : List Job) : BuildReport :=
  let built := js.map (record c)
  { jobs := built
    manifest := .ofList (built.map fun b => (b.id, b.entry))
    manifestPath := c.manifestPath }

end Build

/-- Builds the project of a configuration with a bundler. -/
def build (c : Config) (bundler : Bundler) : Workspace.Action BuildError BuildReport := do
  let (jobs, entries) ← .view (Build.plan c) id
  .onDisk (Build.writeEntries entries) id
  let forceInlined ← .view (Build.dependencies c.root) id
  .onDisk (Build.clean c.outPath) id
  .bundle bundler (Build.request c entries forceInlined) .bundle
  let report := Build.report c jobs
  .onDisk (report.manifest.save report.manifestPath) .manifest
  return report

/-- A line for each job of a build, which says where it is. -/
def BuildReport.summary (c : Config) (r : BuildReport) : List String :=
  r.jobs.map fun b => s!"Bundled job {b.id.text} -> {c.displayArtifact b.entry.artifactPath}"

end JobBundler
