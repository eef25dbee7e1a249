import JobBundler.Proofs.Entry.Coverage
import JobBundler.Proofs.Manifest
import JobBundler.Proofs.Manifest.Saving

/-!
# What a manifest is read from

The text of a manifest is decided by the entries of the jobs (`Index.eq_of_get?`), and a manifest that was
saved is loaded again. Of any other text that is read as a manifest, all ids and group names are valid
(`Manifest.render_loads`).
-/

namespace JobBundler

open Disk

variable {m : Manifest} {members : List (Option String × Json)}

/-! ## Tables with the same entries -/

theorem Index.eq_of_get? {κ α : Type} [Labelled κ] {x y : Index κ α} (h : ∀ k, x.get? k = y.get? k) : x = y := by
  have hmem : ∀ e, e ∈ x.toList ↔ e ∈ y.toList := fun ⟨k, a⟩ => by
    rw [mem_toList_iff, mem_toList_iff, h]
  have hx : x.toList.Nodup := x.nodup_keys.of_map _
  have hy : y.toList.Nodup := y.nodup_keys.of_map _
  have hperm : x.toList.Perm y.toList := (List.perm_ext_iff_of_nodup hx hy).2 hmem
  refine Index.ext (hperm.eq_of_pairwise (fun a b _ _ hab hba => ?_) x.ascending y.ascending)
  exact absurd (String.lt_trans hab hba) (String.lt_irrefl _)

theorem Index.isSome_get?_ofList {κ α : Type} [Labelled κ] {es : List (κ × α)} {k : κ}
    (h : k ∈ es.map (·.1)) : ((ofList es).get? k).isSome = true := by
  have hf (es : List (κ × α)) (x : Index κ α) (h : k ∈ es.map (·.1) ∨ (x.get? k).isSome = true) :
      ((es.foldl (fun x e => x.insert e.1 e.2) x).get? k).isSome = true := by
    induction es generalizing x with
    | nil => exact h.resolve_left List.not_mem_nil
    | cons e es ih =>
      refine ih _ ?_
      by_cases hk : label k = label e.1
      · exact .inr (by rw [get?_insert, if_pos hk]; rfl)
      · rcases h with h | h
        · rcases List.mem_cons.1 h with rfl | h
          · exact absurd rfl hk
          · exact .inl h
        · exact .inr (by rwa [get?_insert, if_neg hk])
  exact hf es ∅ (.inl h)

/-! ## Names in a value -/

theorem forall₂_of_mapM_eq_some {α β : Type} {f : α → Option β} {as : List α} {bs : List β}
    (h : as.mapM f = some bs) : List.Forall₂ (fun a b => f a = some b) as bs := by
  induction as generalizing bs with
  | nil =>
    cases h
    exact .nil
  | cons a as ih =>
    rw [List.mapM_cons] at h
    obtain ⟨b, hb, h⟩ := Option.bind_eq_some_iff.1 h
    obtain ⟨bs', hbs, h⟩ := Option.bind_eq_some_iff.1 h
    cases h
    exact .cons hb (ih hbs)

theorem Json.eq_map_of_names? {named : List (String × Json)} (h : Json.names? members = some named) :
    members = named.map fun x => (some x.1, x.2) := by
  have hstep := forall₂_of_mapM_eq_some h
  clear h
  induction hstep with
  | nil => rfl
  | cons hx _ ih =>
    obtain ⟨name, hname, rfl⟩ := Option.map_eq_some_iff.1 hx
    rw [List.map_cons, ← ih, ← hname]

namespace ManifestEntry

/-- The values that stand for a group in the value of an entry. -/
def groupValues : Json → List Json
  | .object members => (members.filter (·.1 == some "groupName")).map (·.2)
  | .array values => values.drop 2
  | _ => []

theorem valid_of_groupOfJson? {j : Json} {group : Option GroupName} (h : groupOfJson? j = some group) :
    j = .null ∨ ∃ name, j = .string (some name) ∧ Name.isValid name = true := by
  unfold groupOfJson? at h
  split at h
  · exact .inl rfl
  · rename_i name
    refine .inr ⟨name, rfl, ?_⟩
    cases hparse : GroupName.parse name with
    | error e =>
      rw [hparse] at h
      cases h
    | ok g =>
      obtain rfl : g.text = name := GroupName.parse_eq_ok_iff.1 hparse
      exact g.valid
  · cases h

theorem valid_of_ofValues? {mode path group : Json} {e : ManifestEntry}
    (h : ofValues? mode path (some group) = some e) :
    group = .null ∨ ∃ name, group = .string (some name) ∧ Name.isValid name = true := by
  unfold ofValues? at h
  split at h
  · rename_i heq
    cases heq
    cases hgroup : groupOfJson? group with
    | none =>
      simp only [bind, Option.bind, hgroup] at h
      split at h <;> cases h
    | some g => exact valid_of_groupOfJson? hgroup
  · cases h

theorem valid_of_groupValues {j g : Json} {e : ManifestEntry} (h : ofJson? j = some e) (hg : g ∈ groupValues j) :
    g = .null ∨ ∃ name, g = .string (some name) ∧ Name.isValid name = true := by
  unfold ofJson? at h
  split at h
  · rename_i members
    cases hnamed : Json.names? members with
    | none =>
      rw [hnamed] at h
      cases h
    | some named =>
      have hvalues : groupValues (.object members) = Json.valuesOf named "groupName" := by
        rw [Json.eq_map_of_names? hnamed, groupValues, Json.valuesOf, List.filter_map, List.map_map]
        rfl
      rw [hvalues] at hg
      simp only [hnamed, bind, Option.bind] at h
      split at h
      · rename_i hnone
        rw [hnone] at hg
        cases hg
      · rename_i group _ _ hone
        rw [hone] at hg
        obtain rfl := List.mem_singleton.1 hg
        exact valid_of_ofValues? h
      · cases h
  · cases hg
  · obtain rfl := List.mem_singleton.1 hg
    exact valid_of_ofValues? h
  · cases h

end ManifestEntry

namespace Manifest

/-- All ids and group names in the members of a value are valid, and the manifest has its entries from there. -/
structure IsNamed (members : List (Option String × Json)) (m : Manifest) : Prop where
  ids {name : Option String} {j : Json} (h : (name, j) ∈ members) :
    ∃ text, name = some text ∧ Name.isValid text = true ∧ (m.find? text).isSome
  groups {name : Option String} {j g : Json} (h : (name, j) ∈ members) (hg : g ∈ ManifestEntry.groupValues j) :
    g = .null ∨ ∃ text, g = .string (some text) ∧ Name.isValid text = true
  entries {id : JobId} {e : ManifestEntry} (h : m.get? id = some e) :
    ∃ j, (some id.text, j) ∈ members ∧ ManifestEntry.ofJson? j = some e

theorem isNamed_of_ofJson? {j : Json} (h : ofJson? j = some m) :
    ∃ members, j = .object members ∧ m.IsNamed members := by
  unfold ofJson? at h
  split at h
  · rename_i members
    obtain ⟨named, hnamed, h⟩ := Option.bind_eq_some_iff.1 h
    obtain ⟨es, hes, h⟩ := Option.bind_eq_some_iff.1 h
    obtain rfl := Option.some.inj h
    have hmembers := Json.eq_map_of_names? hnamed
    have hstep : List.Forall₂ (fun x e => e.1.text = x.1 ∧ ManifestEntry.ofJson? x.2 = some e.2) named es := by
      refine (forall₂_of_mapM_eq_some hes).imp fun x e hx => ?_
      obtain ⟨id, hid, hx⟩ := Option.bind_eq_some_iff.1 hx
      obtain ⟨entry, hentry, hx⟩ := Option.bind_eq_some_iff.1 hx
      cases hx
      refine ⟨?_, hentry⟩
      cases hparse : JobId.parse x.1 with
      | error e => rw [hparse] at hid; cases hid
      | ok id' =>
        rw [hparse] at hid
        cases hid
        exact JobId.parse_eq_ok_iff.1 hparse
    have hentry {name : Option String} {j : Json} (hmem : (name, j) ∈ members) :
        ∃ e ∈ es, name = some e.1.text ∧ ManifestEntry.ofJson? j = some e.2 := by
      rw [hmembers] at hmem
      obtain ⟨x, hx, heq⟩ := List.mem_map.1 hmem
      cases heq
      obtain ⟨e, he, htext, hread⟩ := exists_of_mem_left hstep hx
      exact ⟨e, he, congrArg some htext.symm, hread⟩
    refine ⟨members, rfl, fun hmem => ?_, fun hmem hg => ?_, fun {id e} hget => ?_⟩
    · obtain ⟨e, he, rfl, -⟩ := hentry hmem
      exact ⟨e.1.text, rfl, e.1.valid, Index.isSome_get?_ofList (List.mem_map.2 ⟨e, he, rfl⟩)⟩
    · obtain ⟨e, -, -, hread⟩ := hentry hmem
      exact ManifestEntry.valid_of_groupValues hread hg
    · have hmem : (id, e) ∈ es := Index.mem_of_mem_toList_ofList (Index.mem_toList_iff.2 hget)
      obtain ⟨x, hx, htext, hread⟩ := exists_of_mem_left hstep.flip hmem
      refine ⟨x.2, ?_, hread⟩
      rw [hmembers]
      exact List.mem_map.2 ⟨x, hx, by rw [← htext]⟩
  · cases h

/-- What is saved is read as it was. -/
theorem load_of_save {d d' : Disk} {path : Path} (hd : d.WellFormed) (h : (m.save path).run d = (.ok (), d')) :
    d'.readText path = .ok m.render ∧ load path d' = .ok (some m) := by
  obtain ⟨made, result, d₁, hrun, hleads⟩ := m.exists_leads_save path d
  rw [h] at hrun
  cases result with
  | error e => cases hrun
  | ok =>
    cases hrun
    have hread : d'.readText path = .ok m.render := (hleads.follows hd (m.isApart path)).sound.1
    exact ⟨hread, load_of_readText hread⟩

/-- A manifest is loaded as it was saved, by a text that is decided by the entries of the jobs. The names in any
text that is read as a manifest are valid, and such a manifest is loaded again as well. -/
theorem render_loads :
    (∀ m : Manifest, ofText? m.render = some m ∧ ∀ (path : Path) (d d' : Disk), d.WellFormed →
      (m.save path).run d = (.ok (), d') → d'.readText path = .ok m.render ∧ load path d' = .ok (some m)) ∧
    (∀ m m' : Manifest, (∀ id, m.get? id = m'.get? id) → m.render = m'.render) ∧
    ∀ (path : Path) (d : Disk) (m : Manifest), load path d = .ok (some m) → ∃ text members,
      d.readText path = .ok text ∧ Json.ofText? text = some (.object members) ∧ m.IsNamed members ∧
        ofText? m.render = some m := by
  refine ⟨fun m => ⟨m.ofText?_render, fun path d d' => load_of_save⟩, ?_, ?_⟩
  · intro m m' h
    rw [Index.eq_of_get? h]
  · intro path d m h
    unfold load at h
    split at h
    · cases h
    · cases h
    · rename_i text hread
      split at h
      · rename_i m' hm
        cases h
        obtain ⟨j, hj, hm⟩ := Option.bind_eq_some_iff.1 hm
        obtain ⟨members, rfl, hnamed⟩ := isNamed_of_ofJson? hm
        exact ⟨text, members, hread, hj, hnamed, m.ofText?_render⟩
      · cases h

/-- Two entries whose paths are not plain text, inserted in either order. -/
theorem quotedManifest_loads :
    let a : JobId × ManifestEntry := (⟨"A", by decide⟩, ⟨.single, "jobs/\"A\"\n.mjs", none⟩)
    let b : JobId × ManifestEntry := (⟨"B", by decide⟩, ⟨.group, "groups/ü\\.mjs", some ⟨"g", by decide⟩⟩)
    let m : Manifest := Index.ofList [b, a]
    let path : Path := ⟨"dist/manifest.json"⟩
    let d : Disk := .bare ["w"]
    render m = render (Index.ofList [a, b]) ∧ d.WellFormed ∧
      ∃ d', (m.save path).run d = (.ok (), d') ∧ load path d' = .ok (some m) ∧
        ∃ text members, d'.readText path = .ok text ∧ Json.ofText? text = some (.object members) ∧
          m.IsNamed members := by
  intro a b m path d
  obtain ⟨hloads, horder, hnamed⟩ := render_loads
  have hd : d.WellFormed := by decide
  have hsame : m = Index.ofList [a, b] := by decide +kernel
  have hok : ((m.save path).run d).1.toBool = true := by decide +kernel
  rcases hrun : (m.save path).run d with ⟨e | _, d'⟩
  · rw [hrun] at hok
    cases hok
  · have hload := ((hloads m).2 path d d' hd hrun).2
    obtain ⟨text, members, hread, hvalue, hnames, -⟩ := hnamed path d' m hload
    exact ⟨horder m _ fun id => by rw [hsame], hd, d', rfl, hload, text, members, hread, hvalue, hnames⟩

end Manifest

end JobBundler
