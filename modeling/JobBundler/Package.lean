import JobBundler.Index
import JobBundler.Json.Reader

/-! # Package descriptions

A project may come with a description of its package, a JSON object whose member `dependencies` has
a member for each package that the project depends on. Nothing else in it matters. -/

namespace JobBundler.Package

/-- The name of the file that describes a package. -/
def fileName : String :=
  "package.json"

/-- The members of an object by name, each once and in order. The object stands inside another one
and is read in full. -/
def memberNames? (j : Json) : Option (List String) :=
  match j with
  | .object members =>
    if j.isReadable (Json.maxDepth - 1) then
      (Json.names? members).map fun ms => (NameSet.ofList (ms.map (·.1))).keys
    else none
  | _ => none

/-- The dependencies that a description names. It may be an array of the member's value. -/
def ofJson? : Json → Option (List String)
  | .object members => do
    match Json.valuesOf (← Json.names? members) "dependencies" with
    | [] => some []
    | [j] => memberNames? j
    | _ => none
  | .array [] => some []
  | .array [j] => memberNames? j
  | _ => none

/-- The dependencies that the text of a description names. -/
def dependencies? (text : String) : Option (List String) :=
  Json.ofText? text >>= ofJson?

end JobBundler.Package
