import JobBundler.Shell.Run

/-! # Running programs

A bundler or a host is a program that the configuration names, so what a build or a dispatch comes to depends on
what its programs do. Those that are here are small ones, a shell and some tools, with which a script can take
the place of a bundler or of a host. Other programs enter as a `Bundler` or a `Host` of their own. -/

namespace JobBundler.Process

/-- Runs a program in the working directory. -/
def runHere (c : Command) : Disk.Action FileError Finished := do
  match ← .view (Shell.Program.find c.program) with
  | .tool t =>
    let out ← t c.arguments .empty
    return { status := .exited out.status, stdout := out.stdout, stderr := out.stderr.toUTF8 }
  | .shell => Shell.start c.program c.arguments c.environment
  | .script options =>
    Shell.start c.program (options ++ c.program :: c.arguments) c.environment

/-- The location of a directory. -/
def locateDir (p : Path) (d : Disk) : Except FileError Disk.Location := do
  match ← d.nodeAt p with
  | .directory => d.locate p
  | .file _ => throw .notDirectory

/-- Runs a program in its directory and waits until it has ended. It fails if the program cannot be
started. -/
def run (c : Command) : Disk.Action FileError Finished := do
  if c.texts.any hasNul then throw .nulInCommand
  let before := (← get).workingDir
  match c.directory with
  | none => runHere c
  | some p =>
    let here ← .view (locateDir p)
    modify fun d => { d with workingDir := here }
    let result ← .attempt (runHere c)
    modify fun d => { d with workingDir := before }
    ExceptT.mk (pure result)

end JobBundler.Process
