import JobBundler.Job.Candidate
import JobBundler.Name

/-! # Validation

All candidates of a build are checked together, and every problem is reported: classes that are not
exported, malformed ids and group names, and ids that are declared more than once. What passes is a
list of jobs, whose types rule these problems out as far as one job goes. -/

namespace JobBundler

/-- A valid job. -/
structure Job where
  id : JobId
  sourceFile : Path
  className : Option String
  exported : ExportKind
  group : Option GroupName
  deriving DecidableEq, Repr

namespace Job

/-- The member of the source module that holds the class. -/
def exportMember (j : Job) : String :=
  match j.className, j.exported with
  | some name, .byName => name
  | _, _ => "default"

end Job

/-- A place where an id is declared. -/
structure JobSite where
  className : String
  file : Path
  deriving DecidableEq, Repr

inductive Problem where
  | notExported (className : String) (file : Path)
  | invalidId (id className : String) (file : Path)
  | invalidGroup (group id : String) (file : Path)
  | duplicate (id : String) (sites : List JobSite)
  deriving DecidableEq, Repr

namespace Problem

def message : Problem → String
  | notExported className file =>
    s!"job class {className} in {file.text} is not exported; " ++
      "use \x60export class\x60 or \x60export default class\x60"
  | invalidId id className file =>
    s!"invalid job id {Text.quoted id} on class {className} in {file.text}: " ++
      "expected one or more of [A-Za-z0-9._-]"
  | invalidGroup group id file =>
    s!"invalid group name {Text.quoted group} on job {Text.quoted id} in {file.text}: " ++
      "expected one or more of [A-Za-z0-9._-]"
  | duplicate id sites =>
    s!"duplicate job id {Text.quoted id} declared by " ++
      ", ".intercalate (sites.map fun s => s!"class {s.className} in {s.file.text}")

/-- The problems as one message. -/
def report (problems : List Problem) : String :=
  "job validation failed:\n" ++ "\n".intercalate (problems.map fun p => s!"  - {p.message}")

end Problem

namespace Candidate

/-- The group that a candidate is built into, as written. -/
def groupIn? (mode : BuildMode) (c : Candidate) : Option String :=
  match mode with
  | .perJob => none
  | .grouped => c.group

/-- The problems of a candidate by itself. Paths are shown relative to `root`. -/
def problems (mode : BuildMode) (root : Path) (c : Candidate) : List Problem :=
  let file := c.sourceFile.relativeTo root
  let className := displayClass c.className
  (if c.exported = .notExported then [.notExported className file] else []) ++
    (if Name.isValid c.id then [] else [.invalidId c.id className file]) ++
    match c.groupIn? mode with
    | some group => if Name.isValid group then [] else [.invalidGroup group c.id file]
    | none => []

/-- The job of a candidate without problems of its own. -/
def toJob? (mode : BuildMode) (c : Candidate) : Option Job :=
  match c.exported, JobId.parse c.id, (c.groupIn? mode).mapM GroupName.parse with
  | .notExported, _, _ => none
  | exported, .ok id, .ok group =>
    some { id, sourceFile := c.sourceFile, className := c.className, exported, group }
  | _, _, _ => none

end Candidate

/-- The ids that are declared more than once, in their order, each with all its places. -/
def duplicates (root : Path) (cs : List Candidate) : List Problem :=
  (Index.groupBy (·.id) cs).toList.filterMap fun (id, sites) =>
    if sites.length > 1 then
      some (.duplicate id (sites.map fun c =>
        ⟨displayClass c.className, c.sourceFile.relativeTo root⟩))
    else none

/-- The jobs of all candidates, or all problems with them. -/
def validate (mode : BuildMode) (root : Path) (cs : List Candidate) :
    Except (List Problem) (List Job) :=
  match cs.flatMap (Candidate.problems mode root) ++ duplicates root cs with
  | [] => .ok (cs.filterMap (Candidate.toJob? mode))
  | problems => .error problems

end JobBundler
