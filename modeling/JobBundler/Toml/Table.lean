/-! # TOML values

Strings, arrays and tables. A table may be written in several pieces, and how it came to be decides
which pieces may follow: a header may open a table only once, and a dotted key may add only to
tables that dotted keys have made. -/

namespace JobBundler.Toml

/-- How a table came to be. -/
inductive Origin where
  /-- It was passed on the way to a table that a header opens. -/
  | passed
  /-- A header opened it. -/
  | header
  /-- A dotted key leads through it. -/
  | dotted
  /-- It was written in braces, and is complete. -/
  | braces
  deriving DecidableEq, Repr

inductive Value where
  | string (text : String)
  | array (items : List Value)
  | table (origin : Origin) (members : List (String × Value))

/-- The members of a table by their keys, each of which stands once. -/
abbrev Members :=
  List (String × Value)

namespace Members

/-- The members with the value at a key changed. There is no value when the key is new. -/
def alter (key : String) (f : Option Value → Option Value) : Members → Option Members
  | [] => (f none).map fun v => [(key, v)]
  | m :: ms =>
    if m.1 = key then (f (some m.2)).map fun v => (key, v) :: ms
    else (alter key f ms).map (m :: ·)

/-- The members after a header has opened the table at a path. -/
def openTable : (path : List String) → Members → Option Members
  | [], _ => none
  | [key], ms => ms.alter key fun
    | none => some (.table .header [])
    | some (.table .passed inner) => some (.table .header inner)
    | _ => none
  | key :: path, ms => ms.alter key fun
    | none => (openTable path []).map (.table .passed)
    | some (.table .braces _) => none
    | some (.table origin inner) => (openTable path inner).map (.table origin)
    | _ => none

/-- The members after a value has been given to a dotted key. -/
def assign : (path : List String) → Value → Members → Option Members
  | [], _, _ => none
  | [key], v, ms => ms.alter key fun
    | none => some v
    | some _ => none
  | key :: path, v, ms => ms.alter key fun
    | none => (assign path v []).map (.table .dotted)
    | some (.table .dotted inner) => (assign path v inner).map (.table .dotted)
    | _ => none

/-- The members after a value has been given to a dotted key in the table at a path. -/
def assignIn : (path : List String) → (key : List String) → Value → Members → Option Members
  | [], key, v, ms => ms.assign key v
  | name :: path, key, v, ms => ms.alter name fun
    | some (.table origin inner) => (assignIn path key v inner).map (.table origin)
    | _ => none

end Members
end JobBundler.Toml
