import JobBundler.Json.Reader

/-! # Outcomes

How an attempt to load an artifact and run its job ended. A host reports it as a JSON object with a
`status`, or as an array that starts with it; the value is read in full. -/

namespace JobBundler

/-- A job's result as it is shown. -/
inductive JobOutput where
  /-- A JSON text. -/
  | json (text : String)
  /-- Any text, for a value that has no JSON text. -/
  | text (text : String)
  deriving DecidableEq, Repr

inductive Outcome where
  /-- The job ran; it may have returned nothing. -/
  | completed (output : Option JobOutput)
  /-- The artifact holds no such job. -/
  | noImplementation
  /-- The job lacks the method that runs it. -/
  | noEntryPoint
  /-- The artifact is a registry, but the manifest does not list the job as part of a group. -/
  | registryWithoutGroup
  /-- The job failed, with a message. -/
  | failed (message : String)
  deriving DecidableEq, Repr

namespace Outcome

/-- A text that may be left out or null. -/
def optionalText? : List Json → Option (Option String)
  | [] | [.null] => some none
  | [.string (some text)] => some (some text)
  | _ => none

/-- The outcome of a job that ran. A JSON text is preferred to another one. -/
def ofTexts (json text : Option String) : Outcome :=
  .completed ((json.map .json).or (text.map .text))

/-- An outcome from its status and its other members. A known member may stand only once. -/
def ofMembers? (status : String) (members : List (String × Json)) : Option Outcome :=
  match status with
  | "ok" => do
    let json ← optionalText? (Json.valuesOf members "json")
    let text ← optionalText? (Json.valuesOf members "text")
    return ofTexts json text
  | "no-implementation" => some .noImplementation
  | "no-entry-point" => some .noEntryPoint
  | "registry-without-group" => some .registryWithoutGroup
  | "error" => match Json.valuesOf members "message" with
    | [.string (some message)] => some (.failed message)
    | _ => none
  | _ => none

/-- An outcome from its status and the items after it. -/
def ofItems? (status : String) (items : List Json) : Option Outcome :=
  match status, items with
  | "ok", items => do
    guard (items.length ≤ 2)
    let json ← optionalText? items[0]?.toList
    let text ← optionalText? items[1]?.toList
    return ofTexts json text
  | "no-implementation", [] => some .noImplementation
  | "no-entry-point", [] => some .noEntryPoint
  | "registry-without-group", [] => some .registryWithoutGroup
  | "error", [.string (some message)] => some (.failed message)
  | _, _ => none

/-- The outcome that a value reports. -/
def ofJson? (j : Json) : Option Outcome := do
  guard (j.isReadable Json.maxDepth)
  match j with
  | .object members =>
    let members ← Json.names? members
    match Json.valuesOf members "status" with
    | [.string (some status)] => ofMembers? status members
    | _ => none
  | .array (.string (some status) :: items) => ofItems? status items
  | _ => none

/-- The outcome that a text reports. -/
def ofText? (text : String) : Option Outcome :=
  Json.ofText? text >>= ofJson?

end Outcome
end JobBundler
