import JobBundler.Process.Basic
import JobBundler.Shell.Field
import JobBundler.Shell.Script
import JobBundler.Shell.Tool.Basic

/-! # The state of a shell

What a shell knows while it runs a script, where its output goes, and how redirections change that.
-/

namespace JobBundler.Shell

/-- Where output goes. -/
inductive Sink where
  | stdout
  | stderr
  /-- To the next command of a pipeline, or into a word. -/
  | pipe
  | file (l : Disk.Location)
  | nowhere
  deriving DecidableEq, Repr

/-- Where the normal output and that for errors go. -/
structure Sinks where
  out : Sink := .stdout
  err : Sink := .stderr

/-- The sinks with one of them changed. -/
def Sinks.setOutput (s : Sinks) (output : Nat) (sink : Sink) : Sinks :=
  if output = 2 then { s with err := sink } else { s with out := sink }

/-- How the failure of commands is dealt with. -/
structure Options where
  /-- Whether the script ends at a command that fails. -/
  exitsOnFailure : Bool := false
  /-- Whether the script ends at a parameter that is not set. -/
  refusesUnset : Bool := false

/-- The options with those that letters turn on. -/
def Options.add (o : Options) (letters : List Char) : Options :=
  { exitsOnFailure := o.exitsOnFailure || letters.contains 'e'
    refusesUnset := o.refusesUnset || letters.contains 'u' }

structure State where
  disk : Disk
  /-- The variables that programs get. -/
  exported : Environment
  /-- The variables that programs do not get. -/
  own : Environment := ∅
  functions : List (String × Script) := []
  options : Options := {}
  /-- What the script is called by. -/
  name : String
  arguments : List String
  /-- The variables that get their old values back when the commands with a name end, while such
  commands run. -/
  locals : Option (List String) := none
  /-- What is run when the script ends, for signal `0`, or when a signal comes. -/
  traps : List (Nat × String) := []
  /-- What is to be run because of signals that have come. -/
  pending : List String := []
  /-- How many loops are running inside one another. -/
  loopDepth : Nat := 0
  /-- What the script is told its process is called. -/
  processId : Nat := 4242
  /-- The line of the last command. -/
  line : Nat := 1
  /-- The status of the last command. -/
  status : Nat := 0
  /-- The status of the last command that wrote into a word. -/
  outputStatus : Option Nat := none
  sinks : Sinks := {}
  input : ByteArray := .empty
  stdout : ByteArray := .empty
  stderr : ByteArray := .empty
  /-- What has been written for the next command of a pipeline, or into a word. -/
  piped : ByteArray := .empty

/-- What cuts commands short. -/
inductive Stop where
  /-- The script ends. -/
  | ended (status : ExitStatus)
  /-- Loops end. -/
  | loops (count : Nat)
  /-- All but one of some loops end, and that one goes on with its next round. -/
  | rounds (count : Nat)
  /-- The commands with a name end. -/
  | function
  deriving DecidableEq, Repr

/-- What runs in a shell. -/
abbrev Run (α : Type) :=
  ExceptT Stop (StateM State) α

/-! ## Parameters -/

/-- The value of a variable, if it is set. -/
def State.find? (st : State) (name : String) : Option String :=
  (st.exported.find? name).or (st.own.find? name)

/-- The separators of the fields of a value. -/
def State.separators (st : State) : List Char :=
  ((st.find? "IFS").map (·.toList)).getD standardSeparators

/-- The value of a parameter, if it is set. -/
def State.value? (st : State) (name : String) : Option String :=
  match name with
  | "@" => if st.arguments.isEmpty then none else some (" ".intercalate st.arguments)
  | "*" =>
    if st.arguments.isEmpty then none
    else some ((String.ofList (st.separators.take 1)).intercalate st.arguments)
  | "#" => some (toString st.arguments.length)
  | "?" => some (toString st.status)
  | "$" => some (toString st.processId)
  | "0" => some st.name
  | name =>
    match name.toNat? with
    | some n => st.arguments[n - 1]?
    | none => st.find? name

/-- The state after a variable has been set. -/
def State.assign (st : State) (name value : String) : State :=
  if (st.exported.find? name).isSome then { st with exported := st.exported.insert name value }
  else { st with own := st.own.insert name value }

/-- The variables with those of some names as they were before. -/
def restoreVariables (names : List String) (before after : Environment) : Environment :=
  names.foldl (fun e name =>
    match before.find? name with
    | some value => e.insert name value
    | none => .ofList (e.toList.filter (·.1 != name))) after

/-- The state after the end of commands with a name. -/
def State.afterFunction (before after : State) : State :=
  let names := after.locals.getD []
  { after with
    arguments := before.arguments
    locals := before.locals
    loopDepth := before.loopDepth
    exported := restoreVariables names before.exported after.exported
    own := restoreVariables names before.own after.own }

/-- The state after a variable has been handed to programs, perhaps with a new value. -/
def State.exportVariable (st : State) (name : String) (value : Option String) : State :=
  match value.or (st.own.find? name) with
  | some v => { st with exported := st.exported.insert name v }
  | none => st

/-! ## Output -/

/-- The disk with bytes at the end of a file. -/
def appendBytes (d : Disk) (l : Disk.Location) (bytes : ByteArray) : Disk :=
  match d.node? l with
  | some (.file f) => d.put l (.file { f with content := .ofBytes (f.content.bytes ++ bytes) })
  | _ => d

def emit (sink : Sink) (bytes : ByteArray) : Run Unit :=
  modify fun st =>
    match sink with
    | .stdout => { st with stdout := st.stdout ++ bytes }
    | .stderr => { st with stderr := st.stderr ++ bytes }
    | .pipe => { st with piped := st.piped ++ bytes }
    | .file l => { st with disk := appendBytes st.disk l bytes }
    | .nowhere => st

/-- A complaint of the shell about the last command. -/
def complain (text : String) : Run Unit := do
  let st ← get
  emit st.sinks.err s!"{st.name}: {st.line}: {text}\n".toUTF8

def setStatus (status : Nat) : Run Unit :=
  modify fun st => { st with status }

/-- What is said of a file that cannot be used, when `missing` is said of one that is not there. -/
def openReason (missing : String) (e : FileError) : String :=
  if e = .notFound ∨ e = .notDirectory then missing else reason e

/-- What a shell reads from bytes. It does not see a NUL. -/
def charsOf (bytes : List UInt8) : List Char :=
  Text.decode (bytes.filter (· != 0))

/-- The text of a script in a file. A directory holds an empty one. -/
def scriptIn (d : Disk) (input : ByteArray) (file : String) : Except FileError String :=
  match bytesOf d input file with
  | .ok bytes => .ok (String.ofList (charsOf bytes.toList))
  | .error .isDirectory => .ok ""
  | .error e => .error e

/-! ## Redirections -/

/-- Opens a file to write to. Unless text is to be appended, what was in it is lost. -/
def openFile (sinks : Sinks) (append : Bool) (file : Path) (d : Disk) :
    Except FileError (Sink × Disk) := do
  match file.text with
  | "/dev/null" => return (.nowhere, d)
  | "/dev/stdout" => return (sinks.out, d)
  | "/dev/stderr" => return (sinks.err, d)
  | _ =>
  let d ← if append && d.isFile file then pure d else Disk.write file (.text "") d
  return (.file (← d.locate file), d)

/-- Lets an output go to a file. Says whether that can be done. -/
def redirectOutput (output : Nat) (append : Bool) (file : String) : Run Bool := do
  let st ← get
  match openFile st.sinks append ⟨file⟩ st.disk with
  | .ok (sink, disk) =>
    set { st with disk, sinks := st.sinks.setOutput output sink }
    return true
  | .error e =>
    complain (s!"cannot create {file}: " ++ openReason "Directory nonexistent" e)
    return false

/-- Lets the input come from a file. Says whether that can be done. From a directory comes nothing. -/
def redirectInput (file : String) : Run Bool := do
  let st ← get
  match bytesOf st.disk st.input file with
  | .ok input =>
    set { st with input }
    return true
  | .error .isDirectory =>
    set { st with input := .empty }
    return true
  | .error e =>
    complain (s!"cannot open {file}: " ++ openReason "No such file" e)
    return false

/-- Lets one output go where another one goes. -/
def duplicateOutput (output source : Nat) : Run Unit :=
  modify fun st =>
    { st with sinks :=
        st.sinks.setOutput output (if source = 2 then st.sinks.err else st.sinks.out) }

/-! ## Keeping what is to stay -/

/-- Runs something, and then lets `restore` put back what was before, however it ends. -/
def restoring {α : Type} (restore : (before after : State) → State) (x : Run α) : Run α :=
  ExceptT.mk do
    let before ← get
    let result ← x.run
    modify (restore before)
    return result

/-- The state after something for which other variables were handed to programs. -/
def State.afterExports (before after : State) : State :=
  { after with exported := before.exported }

/-- The state after something that changes nothing of the shell but what is outside of it. -/
def State.afterIsolated (before after : State) : State :=
  { before with
    disk := { after.disk with workingDir := before.disk.workingDir }
    input := after.input
    stdout := after.stdout
    stderr := after.stderr
    piped := after.piped
    status := after.status }

/-- Runs something that changes nothing of the shell but what is outside of it, and ends with it. -/
def isolated (x : Run Unit) : Run Unit :=
  restoring State.afterIsolated do
    match ← ExceptT.mk (Except.ok <$> x.run) with
    | .ok _ => return
    | .error (.ended (.exited status)) => setStatus status
    | .error (.ended (.killed signal)) => throw (.ended (.killed signal))
    | .error _ => return

/-- Runs something and takes what it writes, without letting it through. -/
def captured (x : Run Unit) : Run ByteArray := do
  let before ← get
  set { before with piped := .empty, sinks := { before.sinks with out := .pipe } }
  x
  let after ← get
  set { after with piped := before.piped, sinks := before.sinks }
  return after.piped

end JobBundler.Shell
