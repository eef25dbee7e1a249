import JobBundler.Name

/-! # Manifests

A manifest says for each job which artifact holds it and how it is taken from there. -/

namespace JobBundler

/-- How a job is taken from its artifact. -/
inductive ManifestMode where
  /-- The artifact's default export is the job. -/
  | single
  /-- The artifact exports a registry of jobs by id. -/
  | group
  deriving DecidableEq, Repr

def ManifestMode.describe : ManifestMode → String
  | single => "single"
  | group => "group"

/-- The artifact of a job of its own, relative to the output directory. It is also where a job is
looked for that no manifest lists. -/
def jobArtifactPath (id ext : String) : String :=
  s!"jobs/{id}.{ext}"

/-- The artifact of a group, relative to the output directory. -/
def groupArtifactPath (name ext : String) : String :=
  s!"groups/{name}.{ext}"

structure ManifestEntry where
  mode : ManifestMode
  /-- Relative to the output directory. -/
  artifactPath : String
  groupName : Option GroupName
  deriving DecidableEq, Repr

namespace ManifestEntry

/-- The entry of a job with an artifact of its own. -/
def single (id : JobId) (ext : String) : ManifestEntry :=
  ⟨.single, jobArtifactPath id.text ext, none⟩

/-- The entry of a job in the artifact of a group. -/
def group (name : GroupName) (ext : String) : ManifestEntry :=
  ⟨.group, groupArtifactPath name.text ext, some name⟩

end ManifestEntry

/-- The entries by job id, in the order of the ids. -/
abbrev Manifest := Index JobId ManifestEntry

end JobBundler
