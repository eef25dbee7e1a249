import JobBundler.Outline.Basic

/-! # Markers

A class is marked as a job by a decorator, and may be put into a group by another one. The names of
both decorators are settings. -/

namespace JobBundler

/-- How a class is marked as a job. -/
inductive JobMarker where
  /-- Without an id of its own. -/
  | bare
  | withId (id : String)
  deriving DecidableEq, Repr

def JobMarker.explicitId? : JobMarker → Option String
  | bare => none
  | withId id => some id

namespace Decorator

/-- The string arguments of the decorators with this name. -/
def strings (ds : List Decorator) (name : String) : List String :=
  (ds.filter (·.name == name)).filterMap firstString?

end Decorator

/-- The job marker among the decorators. Several make one; the last id given counts. -/
def jobMarker? (ds : List Decorator) (name : String) : Option JobMarker :=
  match (Decorator.strings ds name).getLast? with
  | some id => some (.withId id)
  | none => if ds.any (·.name == name) then some .bare else none

/-- The group among the decorators: the last one named by a string. -/
def groupMarker? (ds : List Decorator) (name : String) : Option String :=
  (Decorator.strings ds name).getLast?

end JobBundler
