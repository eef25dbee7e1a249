import JobBundler.Entry.Group
import JobBundler.Entry.Job

/-! # Plans

A plan holds every entry module of a build: one for each group, and one for each job without a
group, in the order of their keys. -/

namespace JobBundler

/-- The source file at a path. -/
def findSource? (files : List SourceFile) (path : Path) : Option SourceFile :=
  files.find? (·.path.same path)

/-- The entry module of a job of its own. -/
def plannedJob (config : Config) (files : List SourceFile) (j : Job) :
    Except SynthesisError EntryModule :=
  match findSource? files j.sourceFile with
  | none => .error (.sourceMissing j.id.text j.sourceFile)
  | some source => j.entry source (config.scratchDir / "jobs") config.references

/-- The jobs of each group, in order. -/
def groups (js : List Job) : Index GroupName (List Job) :=
  js.foldl (fun x j => match j.group with
    | some name => x.push name j
    | none => x) ∅

/-- The entry modules of a build of the jobs. -/
def planEntries (config : Config) (files : List SourceFile) (js : List Job) :
    Except SynthesisError (List EntryModule) := do
  let single ← (js.filter (·.group.isNone)).mapM (plannedJob config files)
  let grouped := (groups js).toList.map fun (name, members) =>
    name.entry members (config.scratchDir / "groups")
  return (Index.ofList ((single ++ grouped).map fun e => (e.key, e)) : Index String _).values

end JobBundler
