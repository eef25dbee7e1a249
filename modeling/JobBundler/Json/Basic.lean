import JobBundler.Json.Number

/-! # JSON values

A value as it stands in a text: members keep their order and repetitions, numbers their digits. A
text that is escaped wrongly, with half of a surrogate pair, is no text; such a value may be skipped
but not read, and the same holds of a number that no double can hold. -/

namespace JobBundler

inductive Json where
  | null
  | bool (value : Bool)
  | number (value : Json.Number)
  /-- A string; none when its escapes are no text. -/
  | string (text : Option String)
  | array (items : List Json)
  | object (members : List (Option String × Json))

namespace Json

/-- Whether the value can be read in full when containers may be nested `depth` deep. -/
def isReadable : (depth : Nat) → Json → Bool
  | _, null | _, bool _ => true
  | _, number value => !value.overflows
  | _, string text => text.isSome
  | 0, array _ | 0, object _ => false
  | depth + 1, array items => items.attach.all fun ⟨j, _⟩ => isReadable depth j
  | depth + 1, object members =>
    members.attach.all fun ⟨(name, j), _⟩ => name.isSome && isReadable depth j

/-- How deep containers may be nested in a value that is read in full. -/
def maxDepth : Nat :=
  127

/-- The names of an object with their values; none when a name is no text. -/
def names? (members : List (Option String × Json)) : Option (List (String × Json)) :=
  members.mapM fun (name, j) => name.map (·, j)

/-- The values of the members with a name. -/
def valuesOf (members : List (String × Json)) (name : String) : List Json :=
  (members.filter (·.1 == name)).map (·.2)

end Json
end JobBundler
