import JobBundler.Disk.Change
import JobBundler.Glob.Search
import JobBundler.Job.Candidate

/-! # Discovery

The job sources of a project are the files under its root that match the pattern, in the order of
their paths. All of them have to be readable and well-formed, or the whole discovery fails. -/

namespace JobBundler

inductive DiscoveryError where
  | invalidPattern (pattern : String) (error : Glob.PatternError)
  | noFiles (pattern : String)
  | unreadable (path : Path) (error : FileError)
  | malformed (path : Path) (diagnostic : String)
  | nameless (job : NamelessJob)
  | noJobs (pattern decorator : String)
  deriving DecidableEq, Repr

def DiscoveryError.message : DiscoveryError → String
  | invalidPattern pattern error =>
    s!"invalid source pattern {Text.quoted pattern}: {error.message}"
  | noFiles pattern => s!"no files matched {pattern}"
  | unreadable path error => s!"failed to read {path.text}: {error.message}"
  | malformed path diagnostic => s!"failed to parse {path.text}:\n{diagnostic}"
  | nameless job => job.message
  | noJobs pattern decorator =>
    s!"no jobs found in files matching {pattern}; " ++
      s!"export a class and annotate it with @{decorator}"

/-- All that discovery finds out. -/
structure Discovery where
  files : List SourceFile
  candidates : List Candidate
  deriving DecidableEq, Repr

namespace Discovery

/-- The glob pattern of the job sources. The root stands for itself, whatever it is called. -/
def pattern (config : Config) : String :=
  ((Path.mk (Glob.escape config.root.text)).join ⟨config.pattern⟩).text

/-- The paths of the job sources in their order. -/
def findSources (config : Config) (d : Disk) : Except DiscoveryError (List Path) :=
  match Glob.files d (pattern config) with
  | .ok paths => .ok (paths.mergeSort fun p q => p.compare q != .gt)
  | .error e => .error (.invalidPattern config.pattern e)

/-- The text of a job source. -/
def read (d : Disk) (path : Path) : Except DiscoveryError (Path × String) :=
  match d.readText path with
  | .ok text => .ok (path, text)
  | .error e => .error (.unreadable path e)

/-- A job source with its candidates. -/
def examine (config : Config) (path : Path) (text : String) :
    Except DiscoveryError (SourceFile × List Candidate) :=
  match Outline.ofSource text with
  | .error e => .error (.malformed path (e.diagnostic text))
  | .ok outline =>
    let file : SourceFile := { path, text, outline }
    match Candidate.ofSource config file with
    | .error e => .error (.nameless e)
    | .ok candidates => .ok (file, candidates)

end Discovery

/-- Finds the candidates of a project. All sources are read before the first one is examined. -/
def discover (config : Config) (d : Disk) : Except DiscoveryError Discovery := do
  let paths ← Discovery.findSources config d
  if paths.isEmpty then throw (.noFiles config.pattern)
  let texts ← paths.mapM (Discovery.read d)
  let found ← texts.mapM fun (path, text) => Discovery.examine config path text
  let candidates := found.flatMap (·.2)
  if candidates.isEmpty then throw (.noJobs config.pattern config.jobDecorator)
  return { files := found.map (·.1), candidates }

end JobBundler
