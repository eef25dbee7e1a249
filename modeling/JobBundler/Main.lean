import JobBundler.CommandLine.Run
import JobBundler.CommandLine.Snapshot

/-! # The program

The files of a project are read from a line of standard input, and a command is tried on them: what
it prints is printed, and nothing outside is changed. -/

namespace JobBundler.CommandLine

/-- The variables that commands look at. -/
def variableNames : List String :=
  ["EJ_JOB_DECORATOR", "EJ_GROUP_DECORATOR", "EJ_TARGET", "EJ_MODE", "EJ_OUT_DIR", "EJ_PATTERN",
   "EJ_BUNDLER", "EJ_NODE", "EJ_LOG", "RUST_LOG"]

/-- The variables that are set. -/
def readEnvironment : IO Environment := do
  let values ← variableNames.mapM fun name => return (← IO.getEnv name).map (name, ·)
  return .ofList (values.filterMap (·))

end JobBundler.CommandLine

open JobBundler in
/-- Tries a command on the files of a snapshot. -/
def main (arguments : List String) : IO UInt32 := do
  match Snapshot.ofText? (← (← IO.getStdin).getLine) with
  | none =>
    IO.eprintln "error: no snapshot of a project on standard input"
    return 1
  | some disk =>
    let context : CommandLine.Context := { environment := ← CommandLine.readEnvironment, loader := "" }
    let (code, w) := (context.run arguments).run { disk }
    IO.print w.stdout
    IO.eprint w.stderr
    return code.toUInt32
