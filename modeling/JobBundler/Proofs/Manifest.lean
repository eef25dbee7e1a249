import JobBundler.Manifest.Store
import JobBundler.Proofs.Index
import JobBundler.Proofs.Json.Tokens

/-!
# Manifests that are read again

What is written of a manifest is read as that manifest, whatever the paths and extensions in it are
(`Manifest.ofText?_render`).
-/

namespace JobBundler

open Json (Member Token Tokenizes IsReadAs)

theorem mapM_map_eq_some {α β γ : Type} {f : β → Option γ} {g : α → β} {h : α → γ}
    (hf : ∀ a, f (g a) = some (h a)) (as : List α) : (as.map g).mapM f = some (as.map h) := by
  induction as with
  | nil => rfl
  | cons a as ih =>
    rw [List.map_cons, List.mapM_cons, hf, ih]
    rfl

/-- A text as a member of an object. -/
def Json.Member.text (name value : String) : Member :=
  ⟨name, [.scalar (.string (some value))], .string (some value)⟩

namespace ManifestEntry

/-- The names and values of an entry's members. -/
def fields (e : ManifestEntry) : List (String × String) :=
  [("mode", e.mode.describe), ("artifactPath", e.artifactPath)] ++
    (e.groupName.map fun name => ("groupName", name.text)).toList

/-- The members of an entry. -/
def members (e : ManifestEntry) : List Member :=
  e.fields.map fun f => .text f.1 f.2

/-- An entry as a member of the manifest. -/
def member (id : JobId) (e : ManifestEntry) : Member :=
  ⟨id.text, Member.braced e.members, Member.object e.members⟩

theorem lines_eq (e : ManifestEntry) :
    e.lines = e.fields.map fun f => Json.literal f.1 ++ ": " ++ Json.literal f.2 := by
  have hmode : "\"mode\": " = Json.literal "mode" ++ ": " := by decide
  have hpath : "\"artifactPath\": " = Json.literal "artifactPath" ++ ": " := by decide
  have hgroup : "\"groupName\": " = Json.literal "groupName" ++ ": " := by decide
  rw [lines, fields, hmode, hpath, hgroup]
  cases e.groupName <;> rfl

theorem tokenizes_lines (e : ManifestEntry) :
    Tokenizes (",\n".intercalate (e.lines.map ("    " ++ ·)))
      ([Token.mark ','].intercalate (e.members.map Member.named)) := by
  rw [lines_eq, members, List.map_map, List.map_map]
  apply Tokenizes.intercalate
  intro f _
  have hname := (Tokenizes.literal f.1).append (.of_marks (a := ": ") (by decide))
  exact (Tokenizes.of_marks (by decide)).append (hname.append (.literal f.2))

theorem tokenizes_render (id : JobId) (e : ManifestEntry) :
    Tokenizes (e.render id) (e.member id).named := by
  have hid := (Tokenizes.of_marks (a := "  ") (by decide)).append (.literal id.text)
  have hopen := hid.append (.of_marks (a := ": \x7b\n") (by decide))
  exact (hopen.append e.tokenizes_lines).append (.of_marks (a := "\n  \x7d") (by decide))

theorem ofJson?_object (e : ManifestEntry) : ofJson? (Member.object e.members) = some e := by
  obtain ⟨mode, path, group⟩ := e
  have hmode : ManifestMode.ofName? mode.describe = some mode := by cases mode <;> rfl
  cases group with
  | none =>
    simp [Member.object, members, fields, Member.text, ofJson?, Json.names?, Json.valuesOf, ofValues?,
      ManifestMode.ofJson?, hmode]
  | some name =>
    have hname : GroupName.parse name.text = .ok name := GroupName.parse_eq_ok_iff.2 rfl
    simp [Member.object, members, fields, Member.text, ofJson?, Json.names?, Json.valuesOf, ofValues?,
      ManifestMode.ofJson?, hmode, groupOfJson?, hname, Except.toOption]

end ManifestEntry

namespace Manifest

theorem tokenizes_render (m : Manifest) :
    Tokenizes m.render (Member.braced (m.toList.map fun e => e.2.member e.1)) := by
  unfold render
  split
  · rename_i h
    have hnil : m.toList = [] := List.isEmpty_iff.1 h
    rw [hnil]
    exact .of_marks (by decide)
  · have hentries : Tokenizes (",\n".intercalate (m.toList.map fun e => e.2.render e.1)) _ :=
      Tokenizes.intercalate fun e _ => e.2.tokenizes_render e.1
    have hopen := (Tokenizes.of_marks (a := "\x7b\n") (by decide)).append hentries
    have hall := hopen.append (.of_marks (a := "\n\x7d\n") (by decide))
    rw [Member.braced, List.map_map]
    exact hall

theorem ofJson?_object (m : Manifest) :
    ofJson? (Member.object (m.toList.map fun e => e.2.member e.1)) = some m := by
  have hnames : Json.names? ((m.toList.map fun e => e.2.member e.1).map fun x => (some x.name, x.value)) =
      some (m.toList.map fun e => (e.1.text, Member.object e.2.members)) := by
    rw [List.map_map, Json.names?]
    apply mapM_map_eq_some
    intro e
    rfl
  have hread (e : JobId × ManifestEntry) : (do
      return (← (JobId.parse e.1.text).toOption, ← ManifestEntry.ofJson? (Member.object e.2.members)) :
        Option _) = some e := by
    have hid : JobId.parse e.1.text = .ok e.1 := JobId.parse_eq_ok_iff.2 rfl
    rw [hid, e.2.ofJson?_object]
    rfl
  rw [Member.object, ofJson?, hnames]
  simp only [bind, Option.bind] at hread ⊢
  rw [mapM_map_eq_some hread, List.map_id']
  exact congrArg some m.ofList_toList

/-- A manifest is read from its text. -/
theorem ofText?_render (m : Manifest) : ofText? m.render = some m := by
  have hvalues : ∀ x ∈ m.toList.map fun e => e.2.member e.1, IsReadAs 4 x.tokens x.value := by
    intro x hx
    obtain ⟨e, -, rfl⟩ := List.mem_map.1 hx
    have hfew : e.2.members.length ≤ 3 := by
      cases h : e.2.groupName <;> simp [ManifestEntry.members, ManifestEntry.fields, h]
    have hfields : ∀ y ∈ e.2.members, IsReadAs 0 y.tokens y.value := by
      intro y hy
      obtain ⟨f, -, rfl⟩ := List.mem_map.1 hy
      exact Json.isReadAs_scalar _
    intro fuel rest hfuel
    exact Member.isReadAs_braced hfields fuel rest (by omega)
  rw [ofText?, Member.ofText?_eq m.tokenizes_render hvalues (by omega)]
  exact m.ofJson?_object

theorem load_of_readText {m : Manifest} {d : Disk} {p : Path} (h : d.readText p = .ok m.render) :
    load p d = .ok (some m) := by
  unfold load
  rw [h]
  simp only [ofText?_render]

end Manifest

end JobBundler
