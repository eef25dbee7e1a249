import JobBundler.Config.Basic
import JobBundler.Index

/-! # Bundle requests

What a bundler is asked to do: to make one artifact of each entry module. A build makes one request
for all entries. -/

namespace JobBundler

structure BundleRequest where
  /-- The path of each entry module, by its key. -/
  entries : Index String Path
  outDir : Path
  platform : String
  target : String
  /-- The module specifiers that the host resolves when an artifact is loaded. -/
  externals : List String
  /-- The package dependencies, which have to be part of every artifact. -/
  forceInlined : List String
  /-- The extension of artifacts, without the dot. -/
  outExtension : String
  /-- The directory in which the bundler runs. -/
  workingDir : Path
  deriving DecidableEq

inductive BundleError where
  /-- The command cannot be started. -/
  | spawn (command : String) (error : FileError)
  | failed (command status stderr : String)
  | noCommand
  deriving DecidableEq, Repr

def BundleError.message : BundleError → String
  | spawn command error => s!"failed to start bundler \x60{command}\x60: {error.message}"
  | failed command status stderr => s!"bundler \x60{command}\x60 failed ({status}):\n{stderr}"
  | noCommand => "no bundler command configured"

namespace BundleRequest

/-- The externals that are no package dependencies. -/
def effectiveExternals (r : BundleRequest) : List String :=
  r.externals.filter (!r.forceInlined.contains ·)

/-- The first statements of an artifact for Node, by which bundled modules can `require` the
modules of the host. -/
def requireBanner : String :=
  "import \x7b createRequire as __ejCreateRequire \x7d from 'module'; " ++
    "const require = __ejCreateRequire(import.meta.url);"

/-- The arguments of the bundler's command line. -/
def arguments (r : BundleRequest) : List String :=
  r.entries.toList.map (fun (key, path) => s!"{key}={path.text}") ++
    ["--bundle", "--format=esm", s!"--platform={r.platform}", s!"--target={r.target}",
     s!"--outdir={r.outDir.text}", "--log-level=warning"] ++
    (if r.outExtension = "js" then [] else [s!"--out-extension:.js=.{r.outExtension}"]) ++
    (if r.platform = "node" then [s!"--banner:js={requireBanner}"] else []) ++
    r.effectiveExternals.map fun external => s!"--external:{external}"

end BundleRequest
end JobBundler
