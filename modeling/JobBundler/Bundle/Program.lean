import JobBundler.Bundle.Bundler
import JobBundler.Process.Run

/-! # Bundlers that are programs -/

namespace JobBundler.Bundler

/-- What a bundler with this command line runs for a request. -/
def command (program : String) (leading : List String) (environment : Environment) (r : BundleRequest) :
    Command :=
  { program
    arguments := leading ++ r.arguments
    environment
    directory := some r.workingDir }

/-- The bundler with this command line, to which the arguments of a request are added. It runs in
the directory that the request names, and fails unless the program succeeds. -/
def program (commandLine : List String) (environment : Environment) : Bundler := fun r => do
  match commandLine with
  | [] => throw .noCommand
  | program :: leading =>
    let shown := " ".intercalate commandLine
    let done ← (Process.run (command program leading environment r)).orFail (.spawn shown)
    unless done.status.isSuccess do
      let stderr := String.ofList (Text.trim (Text.decode done.stderr.toList))
      throw (.failed shown done.status.describe stderr)

end JobBundler.Bundler
