import JobBundler.Shell.Tool.Basic

/-! # Tools that change files -/

namespace JobBundler.Shell.Tool

/-- The file that is in the way of a directory. -/
def obstacle (d : Disk) (name : String) : String :=
  (((Disk.ancestors ⟨name⟩).find? d.isFile).map (·.text)).getD name

def mkdir : Tool := fun arguments _ =>
  let (letters, operands) := options arguments
  forOperands operands fun name => do
    let above := letters.contains 'p'
    let d ← get
    let shown := if above then obstacle d name else name
    complaining (if above then Disk.makeDirs ⟨name⟩ else .change (Disk.makeDir ⟨name⟩))
      fun e => s!"mkdir: cannot create directory '{shown}': {reason e}"

def rm : Tool := fun arguments _ =>
  let (letters, operands) := options arguments
  forOperands operands fun name => do
    let directory := (← get).isDirectory ⟨name⟩
    if letters.contains 'f' && !(← get).contains ⟨name⟩ then return {}
    let trees := letters.contains 'r' || letters.contains 'R'
    let remove :=
      if directory && trees then Disk.removeTree ⟨name⟩ else Disk.removeFile ⟨name⟩
    complaining (.change remove) fun e => s!"rm: cannot remove '{name}': {reason e}"

def rmdir : Tool := fun arguments _ =>
  forOperands (options arguments).2 fun name =>
    complaining (.change (Disk.removeDir ⟨name⟩)) fun e => s!"rmdir: failed to remove '{name}': {reason e}"

/-- Makes files that are not there. -/
def touch : Tool := fun arguments _ =>
  forOperands (options arguments).2 fun name => do
    if (← get).contains ⟨name⟩ then return {}
    complaining (.change (Disk.write ⟨name⟩ (.text "")))
      fun e => s!"touch: cannot touch '{name}': {reason e}"

/-- Where a file goes that is copied or moved: into a directory it goes under its own name. -/
def destination (d : Disk) (source target : String) : Path :=
  if d.isDirectory ⟨target⟩ then Path.mk target / ((Path.mk source).fileName?.getD "")
  else ⟨target⟩

def cp : Tool := fun arguments input => do
  match (options arguments).2 with
  | [source, target] =>
    match bytesOf (← get) input source with
    | .error e => return .failure 1 s!"cp: cannot stat '{source}': {reason e}"
    | .ok bytes =>
      complaining (.change (Disk.write (destination (← get) source target) (.ofBytes bytes)))
        fun e => s!"cp: cannot create regular file '{target}': {reason e}"
  | _ => return .failure 1 "cp: missing file operand"

def mv : Tool := fun arguments _ => do
  match (options arguments).2 with
  | [source, target] =>
    match (← get).nodeAt ⟨source⟩ with
    | .error e => return .failure 1 s!"mv: cannot stat '{source}': {reason e}"
    | .ok _ =>
      complaining (.change (Disk.renameFile ⟨source⟩ (destination (← get) source target)))
        fun e => s!"mv: cannot move '{source}' to '{target}': {reason e}"
  | _ => return .failure 1 "mv: missing file operand"

/-- Lets files be run as programs. -/
def chmod : Tool := fun arguments _ =>
  forOperands arguments.tail fun name =>
    complaining (.change (Disk.makeExecutable ⟨name⟩))
      fun e => s!"chmod: cannot access '{name}': {reason e}"

/-- Writes what it reads to files and also prints it. -/
def tee : Tool := fun arguments input => do
  let out ← forOperands (options arguments).2 fun name =>
    complaining (.change (Disk.write ⟨name⟩ (.ofBytes input))) fun e => s!"tee: {name}: {reason e}"
  return { out with stdout := input }

end JobBundler.Shell.Tool
