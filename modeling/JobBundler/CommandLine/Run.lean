import JobBundler.Bundle.Program
import JobBundler.CommandLine.Arguments
import JobBundler.CommandLine.Environment
import JobBundler.Dispatch.Dispatcher
import JobBundler.Dispatch.Program

/-! # Commands

`build` builds a project and lists its jobs. `run` runs a job and prints its result; what it has to
build before it lists where errors are printed, so the output is the job's alone. -/

namespace JobBundler.CommandLine

inductive CommandError where
  /-- No job is named. -/
  | usage
  | config (error : ConfigError)
  | build (error : BuildError)
  | dispatch (error : DispatchError)
  deriving DecidableEq, Repr

def CommandError.message : CommandError → String
  | usage => "usage: ej run <jobId> [--no-build]"
  | config error => error.message
  | build error => error.message
  | dispatch error => error.message

/-- What a command runs in, apart from the workspace. -/
structure Context where
  environment : Environment
  /-- The text of the module by which the host loads artifacts. -/
  loader : String

namespace Context

/-- Builds with the bundler of the configuration. -/
def build (x : Context) (c : Config) : Workspace.Action BuildError BuildReport :=
  JobBundler.build c (.program c.bundler x.environment)

/-- Builds and prints what was built. -/
def runBuild (x : Context) (root : Path) (mode : Option BuildMode) :
    Workspace.Action CommandError Unit := do
  let c ← .view (Config.loadWith root x.environment mode) .config
  let report ← (x.build c).orFail .build
  .print (String.join ((report.summary c).map (· ++ "\n")))

/-- Builds before a job is run. -/
def rebuild (x : Context) (c : Config) : Rebuild := do
  let report ← (x.build c).orFail .build
  .complain (String.join ((report.summary c).map (· ++ "\n")))

/-- The dispatcher of a configuration. -/
def dispatcher (x : Context) (c : Config) : Dispatcher :=
  { config := c
    host := .program c.node x.loader x.environment
    rebuild := x.rebuild c }

/-- Lets a dispatcher run a job in a workspace. -/
def dispatch (p : Dispatcher) (id : String) (noBuild : Bool) :
    Workspace.Action DispatchError (Option JobOutput) := do
  let (result, journal) := (p.dispatch id noBuild).run { workspace := ← get }
  set journal.workspace
  ExceptT.mk (pure result)

/-- Runs a job and prints its result, if it has one. -/
def runJob (x : Context) (root : Path) (jobId : Option String) (noBuild : Bool) :
    Workspace.Action CommandError Unit := do
  match jobId with
  | none => throw .usage
  | some id =>
    let c ← .view (Config.loadWith root x.environment none) .config
    match ← (dispatch (x.dispatcher c) id noBuild).orFail .dispatch with
    | some (.json text) | some (.text text) => .print (text ++ "\n")
    | none => return

/-- Does what the arguments ask for. The root is the working directory unless one is given. -/
def perform (x : Context) (i : Invocation) : Workspace.Action CommandError Unit := do
  let root := i.root.getD ⟨"/" ++ "/".intercalate (← get).disk.workingDir⟩
  match i.task with
  | .build mode => x.runBuild root mode
  | .run jobId noBuild => x.runJob root jobId noBuild

/-- Runs a command line and returns its exit code. -/
def run (x : Context) (arguments : List String) : StateM Workspace Nat := do
  match read none none arguments with
  | .error .help => return 0
  | .error .misuse => return 1
  | .ok i =>
    match ← (x.perform i).run with
    | .ok _ => return 0
    | .error e =>
      modify fun w => { w with stderr := w.stderr ++ s!"error: {e.message}\n" }
      return 1

end Context
end JobBundler.CommandLine
