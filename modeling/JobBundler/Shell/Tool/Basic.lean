import JobBundler.Disk.Removal
import JobBundler.Text.Decoding

/-! # Tools

The programs that a script or a build can run besides the shell. A tool gets its arguments and what
it can read, works on the disk, and leaves what it writes and a status. -/

namespace JobBundler.Shell

/-- What a tool leaves. -/
structure Output where
  status : Nat := 0
  stdout : ByteArray := .empty
  stderr : String := ""

namespace Output

def ofText (text : String) : Output :=
  { stdout := text.toUTF8 }

def ofBytes (bytes : List UInt8) : Output :=
  { stdout := ⟨bytes.toArray⟩ }

def failure (status : Nat) (complaint : String) : Output :=
  { status, stderr := complaint ++ "\n" }

/-- What one tool leaves and then another one. -/
def append (a b : Output) : Output :=
  { status := max a.status b.status
    stdout := a.stdout ++ b.stdout
    stderr := a.stderr ++ b.stderr }

end Output

abbrev Tool :=
  (arguments : List String) → (input : ByteArray) → StateM Disk Output

/-- A file that takes all output and has none. -/
def nullFile : String :=
  "/dev/null"

/-- The file by which the input is read. -/
def inputFile : String :=
  "/dev/stdin"

/-- What is read from a file, or from the input. -/
def bytesOf (d : Disk) (input : ByteArray) (name : String) : Except FileError ByteArray :=
  if name = nullFile then .ok .empty
  else if name = inputFile then .ok input
  else (d.read ⟨name⟩).map (·.bytes)

/-- What the error is called by tools. -/
def reason : FileError → String
  | .notFound => "No such file or directory"
  | .permissionDenied => "Permission denied"
  | .alreadyExists => "File exists"
  | .notDirectory => "Not a directory"
  | .isDirectory => "Is a directory"
  | .directoryNotEmpty => "Directory not empty"
  | .busy => "Device or resource busy"
  | .nameTooLong => "File name too long"
  | .nulInPath | .nulInCommand => "Invalid argument"
  | .notExecutable => "Exec format error"
  | .notText => "Invalid data"

namespace Tool

/-- Ends with a status and does nothing. -/
def ending (status : Nat) : Tool := fun _ _ =>
  return { status }

/-- The options at the start of the arguments, as letters, and the operands after them. -/
def options : List String → List Char × List String
  | [] => ([], [])
  | a :: as =>
    if a = "--" then ([], as)
    else match a.toList with
      | '-' :: c :: cs =>
        let (letters, operands) := options as
        (c :: cs ++ letters, operands)
      | _ => ([], a :: as)

/-- Does something for each of the operands. It fails if it fails for one of them. -/
def forOperands (operands : List String) (f : String → StateM Disk Output) : StateM Disk Output :=
  operands.foldlM (fun out operand => do return out.append (← f operand)) {}

/-- The output of an action on the disk, which complains when the action fails. -/
def complaining (x : Disk.Action FileError Unit) (complaint : FileError → String) :
    StateM Disk Output := do
  match ← x.run with
  | .ok _ => return {}
  | .error e => return .failure 1 (complaint e)

end Tool
end JobBundler.Shell
