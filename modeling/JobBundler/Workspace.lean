import JobBundler.Bundle.Bundler

/-! # Workspaces

What a command works on: the disk, the requests that bundlers have got, and what has been printed.
An `Action` on a workspace keeps what it has done when it fails. -/

namespace JobBundler

structure Workspace where
  disk : Disk
  /-- The requests to bundlers, the first one first. -/
  requests : List BundleRequest := []
  stdout : String := ""
  stderr : String := ""
  deriving DecidableEq

namespace Workspace

/-- What works on a workspace and may fail. -/
abbrev Action (ε α : Type) :=
  ExceptT ε (StateM Workspace) α

namespace Action

variable {ε ε' α : Type}

/-- The action on the disk of the workspace, with another account of its failure. -/
def onDisk (x : Disk.Action ε α) (f : ε → ε') : Action ε' α := do
  let w ← get
  let (r, disk) := x.run w.disk
  set { w with disk }
  match r with
  | .ok a => return a
  | .error e => throw (f e)

/-- Looks at the disk, with another account of a failure. -/
def view (x : Disk → Except ε α) (f : ε → ε') : Action ε' α := do
  match x (← get).disk with
  | .ok a => return a
  | .error e => throw (f e)

/-- The action with another account of its failure. -/
def orFail (x : Action ε α) (f : ε → ε') : Action ε' α :=
  ExceptT.mk (Except.mapError f <$> x.run)

/-- The outcome of an action, whether it fails or not. -/
def attempt (x : Action ε α) : Action ε' (Except ε α) :=
  ExceptT.mk (Except.ok <$> x.run)

/-- Hands a request to a bundler. -/
def bundle (bundler : Bundler) (r : BundleRequest) (f : BundleError → ε) : Action ε Unit := do
  modify fun w => { w with requests := w.requests ++ [r] }
  onDisk (bundler r) f

def print (text : String) : Action ε Unit :=
  modify fun w => { w with stdout := w.stdout ++ text }

/-- Prints where errors are printed. -/
def complain (text : String) : Action ε Unit :=
  modify fun w => { w with stderr := w.stderr ++ text }

end Action
end Workspace
end JobBundler
