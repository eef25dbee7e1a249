import JobBundler.Dispatch.Host
import JobBundler.Process.Run

/-! # Hosts that are programs

The program is started with the text of a module that loads an artifact. What is to be loaded is in
its environment, and so is the file to which the outcome goes, since its outputs are the job's. -/

namespace JobBundler.Host

/-- The file to which the outcome goes. -/
def resultFile : Path :=
  ⟨"/tmp/.ej-outcome"⟩

/-- The variables that say what to load. -/
def settings (r : LoadRequest) : List (String × String) :=
  [("EJ_ARTIFACT", r.artifact.text),
   ("EJ_JOB_ID", r.jobId),
   ("EJ_MANIFEST_MODE", (r.mode.map (·.describe)).getD ""),
   ("EJ_ENTRY_METHOD", r.entryMethod),
   ("EJ_RESULT_FILE", resultFile.text)]

/-- What the program runs with. -/
def command (program loader : String) (environment : Environment) (r : LoadRequest) : Command :=
  { program
    arguments := ["--input-type=module", "-e", loader]
    environment := (settings r).foldl (fun e (name, value) => e.insert name value) environment }

/-- The outcome in a file, which a program that has ended so was to write. -/
def outcomeIn (file : Path) (status : ExitStatus) (d : Disk) : Except HostError Outcome := do
  let text ← (d.readText file).mapError .file
  if Text.isBlankText text then throw (.noOutcome status.describe)
  match Outcome.ofText? text with
  | some outcome => return outcome
  | none => throw .unreadable

/-- Starts the program for a request and reads what it reports. -/
def execute (program loader : String) (environment : Environment) (r : LoadRequest) :
    Workspace.Action HostError Outcome := do
  let done ← .onDisk (Process.run (command program loader environment r)) (.spawn program)
  .print (Text.ofBytes done.stdout)
  .complain (Text.ofBytes done.stderr)
  .view (outcomeIn resultFile done.status) fun e => e

/-- The host that starts a program with the text of a loader. The file for the outcome is there only
while the program runs. -/
def program (program loader : String) (environment : Environment) : Host := fun r => do
  .onDisk (.change (Disk.write resultFile (.text ""))) .file
  let result ← .attempt (execute program loader environment r)
  .onDisk (.change (Disk.removeFile resultFile)) .file
  ExceptT.mk (pure result)

end JobBundler.Host
