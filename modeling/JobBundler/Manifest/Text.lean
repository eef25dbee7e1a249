import JobBundler.Json.Reader
import JobBundler.Manifest.Basic

/-! # The text of a manifest

A manifest is written as a JSON object with a member for each job, and ends in a line feed. Any
other way to write the same object is read as well: members that are not known are skipped, an entry
may be an array of its values, and a mode may be an object with one empty member. -/

namespace JobBundler

namespace ManifestEntry

/-- The members of an entry, each on a line of its own. -/
def lines (e : ManifestEntry) : List String :=
  [s!"\"mode\": {Json.literal e.mode.describe}",
   s!"\"artifactPath\": {Json.literal e.artifactPath}"] ++
    (e.groupName.map fun name => s!"\"groupName\": {Json.literal name.text}").toList

/-- An entry and its id as a member of the manifest. -/
def render (id : JobId) (e : ManifestEntry) : String :=
  s!"  {Json.literal id.text}: \x7b\n" ++
    ",\n".intercalate (e.lines.map ("    " ++ ·)) ++ "\n  \x7d"

end ManifestEntry

namespace ManifestMode

def ofName? (name : String) : Option ManifestMode :=
  if name = single.describe then some single
  else if name = group.describe then some group
  else none

/-- A mode by its name, or as an object whose only member has that name and no value. -/
def ofJson? : Json → Option ManifestMode
  | .string (some name) => ofName? name
  | .object [(some name, .null)] => ofName? name
  | _ => none

end ManifestMode

namespace ManifestEntry

/-- The name of a group, if the value is not null. -/
def groupOfJson? : Json → Option (Option GroupName)
  | .null => some none
  | .string (some name) => (GroupName.parse name).toOption.map some
  | _ => none

/-- An entry by the values of its members; the group may be left out. -/
def ofValues? : (mode path : Json) → (group : Option Json) → Option ManifestEntry
  | mode, .string (some artifactPath), group => do
    let mode ← ManifestMode.ofJson? mode
    let groupName ← match group with
      | some j => groupOfJson? j
      | none => some none
    return { mode, artifactPath, groupName }
  | _, _, _ => none

/-- An entry from an object, in which a known member stands once, or from an array. -/
def ofJson? : Json → Option ManifestEntry
  | .object members => do
    let members ← Json.names? members
    match Json.valuesOf members "mode", Json.valuesOf members "artifactPath",
        Json.valuesOf members "groupName" with
    | [mode], [path], [] => ofValues? mode path none
    | [mode], [path], [group] => ofValues? mode path (some group)
    | _, _, _ => none
  | .array [mode, path] => ofValues? mode path none
  | .array [mode, path, group] => ofValues? mode path (some group)
  | _ => none

end ManifestEntry

namespace Manifest

/-- The text of a manifest. -/
def render (m : Manifest) : String :=
  if m.isEmpty then "\x7b\x7d\n"
  else "\x7b\n" ++
    ",\n".intercalate (m.toList.map fun (id, e) => e.render id) ++ "\n\x7d\n"

/-- The manifest that a value describes; the last entry of an id counts. -/
def ofJson? : Json → Option Manifest
  | .object members => do
    let entries ← (← Json.names? members).mapM fun (name, j) => do
      return (← (JobId.parse name).toOption, ← ManifestEntry.ofJson? j)
    return Index.ofList entries
  | _ => none

/-- The manifest that a text describes. -/
def ofText? (text : String) : Option Manifest :=
  Json.ofText? text >>= ofJson?

end Manifest
end JobBundler
