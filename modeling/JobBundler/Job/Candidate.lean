import JobBundler.Config.Basic
import JobBundler.Job.Marker
import JobBundler.Outline.Parser

/-! # Candidates

A candidate is a class marked as a job, as it stands in its source. Nothing about it is checked. -/

namespace JobBundler

/-- A source file with its outline. -/
structure SourceFile where
  path : Path
  text : String
  outline : Outline
  deriving DecidableEq, Repr

structure Candidate where
  sourceFile : Path
  /-- The name of the class; none for a nameless default export. -/
  className : Option String
  /-- The id given to the marker, else the name of the class. -/
  id : String
  exported : ExportKind
  group : Option String
  deriving DecidableEq, Repr

/-- A class as messages name it. -/
def displayClass (className : Option String) : String :=
  className.getD "<anonymous default export>"

/-- A class that is marked as a job but has neither an id nor a name. -/
structure NamelessJob where
  path : Path
  line : Nat
  decorator : String
  deriving DecidableEq, Repr

def NamelessJob.message (e : NamelessJob) : String :=
  s!"annotated class at {e.path.text}:{e.line} has no name; " ++
    s!"name the class or pass an id to @{e.decorator}(...)"

namespace Candidate

/-- The candidate of a class, if it is marked as a job. -/
def ofClass? (path : Path) (text : String) (config : Config) (c : ClassDecl) :
    Except NamelessJob (Option Candidate) :=
  match jobMarker? c.decorators config.jobDecorator with
  | none => .ok none
  | some marker =>
    match marker.explicitId?.or c.name with
    | some id => .ok <| some
      { sourceFile := path, className := c.name, id, exported := c.exported
        group := groupMarker? c.decorators config.groupDecorator }
    | none => .error ⟨path, (Source.locate text c.span).line, config.jobDecorator⟩

/-- The candidates of a source, in the order of their classes. -/
def ofSource (config : Config) (file : SourceFile) : Except NamelessJob (List Candidate) := do
  return (← file.outline.classes.mapM (ofClass? file.path file.text config)).filterMap (·)

end Candidate
end JobBundler
