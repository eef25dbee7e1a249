import JobBundler.Disk.FileError
import JobBundler.Path.Basic
import JobBundler.Reference
import JobBundler.Text.Blank
import JobBundler.Text.Quoted

/-! # Configuration

What a build or a run needs to know about a project: where its sources are, how jobs are marked,
and which programs bundle and load them. `validate` refuses values with which no build could
succeed. -/

namespace JobBundler

/-- Whether jobs of a group share an artifact. -/
inductive BuildMode where
  /-- One artifact for each job; groups are ignored. -/
  | perJob
  /-- One artifact for each group, and one for each job without a group. -/
  | grouped
  deriving DecidableEq, Repr

def BuildMode.describe : BuildMode → String
  | perJob => "per-job"
  | grouped => "grouped"

inductive ConfigError where
  | unreadable (path : Path) (error : FileError)
  /-- The text is no configuration. -/
  | malformed (path : Path)
  /-- A setting that may not be blank. -/
  | blank (setting : String)
  /-- The bundler's command line names no command. -/
  | noCommand
  /-- Jobs and groups are marked by the same decorator. -/
  | sameDecorators (name : String)
  | unknownMode (text : String)
  deriving DecidableEq, Repr

def ConfigError.message : ConfigError → String
  | unreadable path error => s!"failed to read {path.text}: {error.message}"
  | malformed path => s!"invalid {path.text}: not a configuration"
  | blank setting => s!"invalid {setting}: must not be empty"
  | noCommand => "invalid bundler: must name a command"
  | sameDecorators name =>
    s!"invalid group_decorator: must differ from job_decorator ({Text.quoted name})"
  | unknownMode text =>
    s!"invalid mode: expected per-job or grouped, got {Text.quoted text}"

def BuildMode.parse (text : String) : Except ConfigError BuildMode :=
  if text = perJob.describe then .ok perJob
  else if text = grouped.describe then .ok grouped
  else .error (.unknownMode text)

/-- The modules that every host provides. They stay outside every artifact. -/
def builtinExternals : List String :=
  ["node:*", "fs", "path", "crypto", "os", "util", "stream", "events", "http", "https", "url",
   "zlib", "tty", "dns", "net", "tls"]

structure Config where
  /-- The directory of the project, to which the paths below are relative. -/
  root : Path := ⟨"."⟩
  /-- The glob pattern of the job sources, relative to the root. -/
  pattern : String := "src/**/*.job.ts"
  outDir : Path := ⟨"dist"⟩
  /-- The decorator that marks a class as a job. -/
  jobDecorator : String := "job"
  /-- The decorator that puts a job into a group. -/
  groupDecorator : String := "group"
  mode : BuildMode := .perJob
  platform : String := "node"
  target : String := "esnext"
  /-- The module specifiers that stay outside the artifacts unless a package provides them. -/
  externals : List String := builtinExternals
  /-- The extension of artifacts, without the dot. -/
  artifactExt : String := "mjs"
  references : ReferenceStrategy := .lexical
  /-- The command line of the bundler. -/
  bundler : List String := ["esbuild"]
  /-- The program that loads artifacts. -/
  node : String := "node"
  /-- The method that runs a job. -/
  entryMethod : String := "run"
  deriving DecidableEq, Repr

namespace Config

/-- The settings that may not be blank, by name. -/
def required (c : Config) : List (String × String) :=
  [("pattern", c.pattern), ("job_decorator", c.jobDecorator),
   ("group_decorator", c.groupDecorator), ("artifact_ext", c.artifactExt), ("node", c.node),
   ("entry_method", c.entryMethod)]

/-- Refuses a configuration with which no build could succeed. -/
def validate (c : Config) : Except ConfigError Unit :=
  match c.required.find? fun s => Text.isBlankText s.2 with
  | some (setting, _) => .error (.blank setting)
  | none =>
    if c.bundler.head?.all Text.isBlankText then .error .noCommand
    else if c.jobDecorator = c.groupDecorator then .error (.sameDecorators c.jobDecorator)
    else .ok ()

/-- The output directory. -/
def outPath (c : Config) : Path :=
  c.root.join c.outDir

/-- The directory of the entry modules. -/
def scratchDir (c : Config) : Path :=
  c.outPath / ".ej" / "entries"

def manifestPath (c : Config) : Path :=
  c.outPath / "manifest.json"

/-- The file of an artifact, which is named relative to the output directory. -/
def artifactFile (c : Config) (artifact : String) : Path :=
  c.outPath / artifact

/-- An artifact as messages show it. -/
def displayArtifact (c : Config) (artifact : String) : String :=
  s!"{c.outDir.text}/{artifact}"

end Config
end JobBundler
