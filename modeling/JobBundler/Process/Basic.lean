import JobBundler.Disk.Change
import JobBundler.Index

/-! # Processes

A process runs a program with arguments and variables in a directory, and ends by an exit or by a
signal. -/

namespace JobBundler

/-- How a process has ended. -/
inductive ExitStatus where
  | exited (code : Nat)
  | killed (signal : Nat)
  deriving DecidableEq, Repr

/-- The signals by their names. -/
def signals : List (String × Nat) :=
  [("SIGHUP", 1), ("SIGINT", 2), ("SIGQUIT", 3), ("SIGILL", 4), ("SIGTRAP", 5), ("SIGABRT", 6),
   ("SIGBUS", 7), ("SIGFPE", 8), ("SIGKILL", 9), ("SIGUSR1", 10), ("SIGSEGV", 11),
   ("SIGUSR2", 12), ("SIGPIPE", 13), ("SIGALRM", 14), ("SIGTERM", 15), ("SIGSTKFLT", 16),
   ("SIGCHLD", 17), ("SIGCONT", 18), ("SIGSTOP", 19), ("SIGTSTP", 20), ("SIGTTIN", 21),
   ("SIGTTOU", 22), ("SIGURG", 23), ("SIGXCPU", 24), ("SIGXFSZ", 25), ("SIGVTALRM", 26),
   ("SIGPROF", 27), ("SIGWINCH", 28), ("SIGIO", 29), ("SIGPWR", 30), ("SIGSYS", 31)]

namespace ExitStatus

def describe : ExitStatus → String
  | exited code => s!"exit status: {code}"
  | killed signal =>
    match signals.find? (·.2 == signal) with
    | some (name, _) => s!"signal: {signal} ({name})"
    | none => s!"signal: {signal}"

/-- Whether the process has done what it was to do. -/
def isSuccess (s : ExitStatus) : Bool :=
  s == exited 0

end ExitStatus

/-- The variables of a process by their names. -/
abbrev Environment :=
  Index String String

/-- What to run. -/
structure Command where
  program : String
  arguments : List String
  environment : Environment
  /-- The directory to run in, if it is not the working directory. -/
  directory : Option Path := none

/-- All texts that a program is started with. -/
def Command.texts (c : Command) : List String :=
  c.program :: c.arguments ++ c.environment.toList.flatMap (fun (name, value) => [name, value]) ++
    (c.directory.map (·.text)).toList

/-- A process that has ended. -/
structure Finished where
  status : ExitStatus
  stdout : ByteArray
  stderr : ByteArray

end JobBundler
