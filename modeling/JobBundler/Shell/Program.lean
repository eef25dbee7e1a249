import JobBundler.Shell.Tool
import JobBundler.Text.Blank

/-! # Programs

A program is one of the system's, which are the shell and its tools, or an executable file that names
the shell in its first line. Anything else cannot be started. -/

namespace JobBundler.Shell

inductive Program where
  | shell
  | tool (t : Tool)
  /-- A script that is run by the shell with options. -/
  | script (options : List String)

namespace Program

/-- The directories of the system's programs. -/
def systemDirs : List String :=
  ["/bin/", "/usr/bin/"]

/-- The name of a system program, which is given by itself or by its path. -/
def systemName? (program : String) : Option String :=
  if program.toList.contains '/' then
    (systemDirs.find? (·.toList.isPrefixOf program.toList)).map fun dir =>
      String.ofList (program.toList.drop dir.length)
  else some program

/-- The system program of the name. -/
def system? (name : String) : Option Program :=
  if name = "sh" ∨ name = "dash" ∨ name = "bash" then some shell
  else (Tool.find? name).map tool

/-- The words of the first line of a script that say what runs it. -/
def interpreter? (text : String) : Option (List String) :=
  match text.toList with
  | '#' :: '!' :: cs => some ((Text.words (cs.takeWhile (· != '\n'))).map String.ofList)
  | _ => none

/-- The program that a text is. -/
def ofText (text : String) : Except FileError Program :=
  match interpreter? text with
  | none => .error .notExecutable
  | some words =>
    let words := if words.head? = some "/usr/bin/env" then words.tail else words
    match words.head?.bind systemName? >>= system? with
    | some shell => .ok (script words.tail)
    | _ => .error .notFound

/-- The program of a name or a path. -/
def find (name : String) (d : Disk) : Except FileError Program := do
  match systemName? name with
  | some name => match system? name with
    | some p => return p
    | none => throw (if name.utf8ByteSize > Disk.maxNameSize then .nameTooLong else .notFound)
  | none => match ← d.nodeAt ⟨name⟩ with
    | .directory | .file ⟨_, false⟩ => throw .permissionDenied
    | .file ⟨.binary _, true⟩ => throw .notExecutable
    | .file ⟨.text text, true⟩ => ofText text

end Program
end JobBundler.Shell
