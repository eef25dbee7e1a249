import JobBundler.Index
import JobBundler.Text.Quoted

/-! # Job ids and group names

Both become parts of artifact paths, and both are one or more ASCII letters, digits, dots,
underscores and hyphens. The types hold valid names only, so `parse` is the one way in. -/

namespace JobBundler

namespace Name

def isNameChar (c : Char) : Bool :=
  c.isAlphanum || c == '.' || c == '_' || c == '-'

/-- Whether the text is usable as a job id or a group name. -/
def isValid (text : String) : Bool :=
  !text.isEmpty && text.toList.all isNameChar

/-- What a name names. -/
inductive Kind where
  | jobId
  | groupName
  deriving DecidableEq, Repr

def Kind.describe : Kind → String
  | jobId => "job id"
  | groupName => "group name"

end Name

/-- A text that is no valid name of its kind. -/
structure InvalidName where
  kind : Name.Kind
  value : String
  deriving DecidableEq, Repr

def InvalidName.message (e : InvalidName) : String :=
  s!"invalid {e.kind.describe} {Text.quoted e.value}: expected one or more of [A-Za-z0-9._-]"

/-- The identifier of a job, unique within one build. -/
structure JobId where
  text : String
  valid : Name.isValid text
  deriving DecidableEq, Repr

/-- The name of a group of jobs that share one artifact. -/
structure GroupName where
  text : String
  valid : Name.isValid text
  deriving DecidableEq, Repr

namespace JobId

def parse (text : String) : Except InvalidName JobId :=
  if h : Name.isValid text then .ok ⟨text, h⟩ else .error ⟨.jobId, text⟩

theorem parse_eq_ok_iff {text : String} {id : JobId} : parse text = .ok id ↔ id.text = text := by
  unfold parse
  split
  · exact ⟨fun h => by cases h; rfl, fun h => by cases h; rfl⟩
  · rename_i hn
    exact ⟨(nomatch ·), fun h => absurd (h ▸ id.valid) hn⟩

theorem ext {a b : JobId} (h : a.text = b.text) : a = b := by
  cases a
  cases b
  cases h
  rfl

instance : Labelled JobId where
  label := text
  label_injective := ext

end JobId

namespace GroupName

def parse (text : String) : Except InvalidName GroupName :=
  if h : Name.isValid text then .ok ⟨text, h⟩ else .error ⟨.groupName, text⟩

theorem parse_eq_ok_iff {text : String} {name : GroupName} :
    parse text = .ok name ↔ name.text = text := by
  unfold parse
  split
  · exact ⟨fun h => by cases h; rfl, fun h => by cases h; rfl⟩
  · rename_i hn
    exact ⟨(nomatch ·), fun h => absurd (h ▸ name.valid) hn⟩

theorem ext {a b : GroupName} (h : a.text = b.text) : a = b := by
  cases a
  cases b
  cases h
  rfl

instance : Labelled GroupName where
  label := text
  label_injective := ext

end GroupName
end JobBundler
