import JobBundler.Config.Basic
import JobBundler.Disk.Change
import JobBundler.Toml.Reader

/-! # Configuration files

The configuration of a project is what its configuration file sets, and the defaults for the rest. A
file may set nothing that is not a setting. -/

namespace JobBundler

namespace Toml.Value

def string? : Value → Option String
  | string text => some text
  | _ => none

def strings? : Value → Option (List String)
  | array items => items.mapM string?
  | _ => none

/-- The name of a choice: a string, or the one key of a table with an empty value. -/
def choice? : Value → Option String
  | string text => some text
  | table _ [(name, table _ [])] | table _ [(name, array [])] => some name
  | _ => none

end Toml.Value

def BuildMode.ofName? (name : String) : Option BuildMode :=
  (BuildMode.parse name).toOption

def ReferenceStrategy.ofName? (name : String) : Option ReferenceStrategy :=
  if name = lexical.describe then some lexical
  else if name = textual.describe then some textual
  else none

namespace Config

/-- The configuration with a setting given a value. The root is not a setting: it is where the file
is. -/
def set? (c : Config) (setting : String) (v : Toml.Value) : Option Config :=
  match setting with
  | "pattern" => v.string?.map fun s => { c with pattern := s }
  | "out_dir" => v.string?.map fun s => { c with outDir := ⟨s⟩ }
  | "job_decorator" => v.string?.map fun s => { c with jobDecorator := s }
  | "group_decorator" => v.string?.map fun s => { c with groupDecorator := s }
  | "mode" => (v.choice? >>= BuildMode.ofName?).map fun m => { c with mode := m }
  | "platform" => v.string?.map fun s => { c with platform := s }
  | "target" => v.string?.map fun s => { c with target := s }
  | "externals" => v.strings?.map fun ss => { c with externals := ss }
  | "artifact_ext" => v.string?.map fun s => { c with artifactExt := s }
  | "references" =>
    (v.choice? >>= ReferenceStrategy.ofName?).map fun r => { c with references := r }
  | "bundler" => v.strings?.map fun ss => { c with bundler := ss }
  | "node" => v.string?.map fun s => { c with node := s }
  | "entry_method" => v.string?.map fun s => { c with entryMethod := s }
  | _ => none

/-- The configuration that the text of a file sets. -/
def ofText? (text : String) : Option Config := do
  (← Toml.ofText? text).foldlM (fun c m => c.set? m.1 m.2) {}

/-- The name of the configuration file. -/
def fileName : String :=
  "ej.toml"

/-- The configuration of the project at a root. -/
def load (root : Path) (d : Disk) : Except ConfigError Config :=
  let path := root / fileName
  match d.readText path with
  | .error .notFound => .ok { root }
  | .error e => .error (.unreadable path e)
  | .ok text =>
    match ofText? text with
    | some c => .ok { c with root }
    | none => .error (.malformed path)

end Config
end JobBundler
