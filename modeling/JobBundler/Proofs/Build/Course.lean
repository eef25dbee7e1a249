import JobBundler.Proofs.Build.Bundlers
import JobBundler.Proofs.Build.Failures

/-!
# Builds that succeed

The disks of a build with an exact bundler, stage by stage (`Build.Passes`). At its end the artifacts of
the plan are there and no other file is where the artifacts of jobs are, and the manifest can be read.
-/

namespace JobBundler

open Disk
open JobBundler.Path (Component)

variable {c : Config} {bundler : Bundler} {d d' : Disk} {w w' : Workspace} {wd l : Location}
  {js : List Job} {es : List EntryModule} {forceInlined : List String}

/-! ## The names of artifacts -/

theorem Config.artifactExt_ne_empty (h : c.validate = .ok ()) : c.artifactExt ≠ "" := by
  intro hext
  unfold validate at h
  split at h
  · cases h
  · rename_i hnone
    have hblank := List.find?_eq_none.1 hnone ("artifact_ext", c.artifactExt) (by simp [required])
    rw [hext] at hblank
    exact hblank rfl

theorem isStep_artifactFile {name : String} (hext : '/' ∉ c.artifactExt.toList)
    (hne : c.artifactExt ≠ "") (hname : Name.isValid name) :
    (Component.normal s!"{name}.{c.artifactExt}").IsStep := by
  have htext : s!"{name}.{c.artifactExt}" = name ++ "." ++ c.artifactExt := rfl
  have hdot : '/' ∉ ".".toList := by decide
  have hlong : ".".toList.length = 1 := rfl
  have hpos : 0 < c.artifactExt.toList.length := List.length_pos_iff.2 (by simpa using hne)
  have hpos' : 0 < name.toList.length := by
    simp only [Name.isValid, Bool.and_eq_true, Bool.not_eq_true', String.isEmpty_eq_false_iff] at hname
    exact List.length_pos_iff.2 (by simpa using hname.1)
  rw [htext]
  apply Component.isStep_normal
  · simp only [String.toList_append, List.mem_append, not_or]
    exact ⟨⟨Name.slash_notMem hname, hdot⟩, hext⟩
  · simp only [String.toList_append, List.length_append, hlong]
    omega

theorem artifactFile_inj {name other : String} :
    s!"{name}.{c.artifactExt}" = s!"{other}.{c.artifactExt}" ↔ name = other := by
  have htext (name : String) : s!"{name}.{c.artifactExt}" = name ++ ("." ++ c.artifactExt) :=
    String.append_assoc
  rw [htext, htext, String.append_left_inj]

/-- The artifact of a planned entry. -/
theorem artifact_of_mem_planEntries {files : List SourceFile} (hes : planEntries c files js = .ok es)
    (hext : '/' ∉ c.artifactExt.toList) (hne : c.artifactExt ≠ "") {e : EntryModule} (he : e ∈ es) :
    ∃ dir ∈ Build.artifactDirs, ∃ name, Name.isValid name ∧ e.key = s!"{dir}/{name}" ∧
      (Component.normal s!"{name}.{c.artifactExt}").IsStep ∧
      (Build.request c es forceInlined).artifact e.key = c.outPath / dir / s!"{name}.{c.artifactExt}" := by
  obtain ⟨dir, hdir, name, hname, hkey, -⟩ := exists_of_mem_planEntries hes he
  have hstep := isStep_artifactFile hext hne hname
  refine ⟨dir, hdir, name, hname, hkey, hstep, ?_⟩
  rw [← div_div (isStep_dir hdir) hstep, hkey]
  have htext : dir ++ "/" ++ name ++ "." ++ c.artifactExt = dir ++ "/" ++ (name ++ "." ++ c.artifactExt) := by
    simp only [String.append_assoc]
  exact congrArg (c.outPath / ·) htext

/-! ## The stages of a build -/

/-- The disks of a build up to the manifest: with the entries, without the old artifacts, and with the new
ones. -/
structure Build.Bundles (c : Config) (bundler : Bundler) (d : Disk) (js : List Job) (es : List EntryModule)
    (forceInlined : List String) (d₁ d₂ d₃ : Disk) : Prop where
  plan : Build.plan c d = .ok (js, es)
  entries : (writeEntries es).run d = (.ok (), d₁)
  dependencies : Build.dependencies c.root d₁ = .ok forceInlined
  clean : (Build.clean c.outPath).run d₁ = (.ok (), d₂)
  bundle : (bundler (request c es forceInlined)).run d₂ = (.ok (), d₃)

/-- The disks of a build that succeeds. The last one is that with the manifest. -/
structure Build.Passes (c : Config) (bundler : Bundler) (d : Disk) (js : List Job) (es : List EntryModule)
    (forceInlined : List String) (d₁ d₂ d₃ d₄ : Disk) : Prop
    extends Bundles c bundler d js es forceInlined d₁ d₂ d₃ where
  save : ((report c js).manifest.save c.manifestPath).run d₃ = (.ok (), d₄)

/-- A preparation succeeds by what it does. -/
theorem Build.run_prepare_of {d₁ d₂ : Disk} (hplan : plan c w.disk = .ok (js, es))
    (hentries : (writeEntries es).run w.disk = (.ok (), d₁))
    (hdependencies : dependencies c.root d₁ = .ok forceInlined)
    (hclean : (clean c.outPath).run d₁ = (.ok (), d₂)) :
    (prepare c).run w = (.ok (js, request c es forceInlined), { w with disk := d₂ }) := by
  refine run_bind_eq_ok_iff.2 ⟨(js, es), w, Workspace.Action.run_view_eq_ok_iff.2 ⟨hplan, rfl⟩, ?_⟩
  refine run_bind_eq_ok_iff.2 ⟨(), { w with disk := d₁ }, ?_, ?_⟩
  · exact Workspace.Action.run_onDisk_eq_ok_iff.2 ⟨d₁, hentries, rfl⟩
  refine run_bind_eq_ok_iff.2 ⟨forceInlined, { w with disk := d₁ }, ?_, ?_⟩
  · exact Workspace.Action.run_view_eq_ok_iff.2 ⟨hdependencies, rfl⟩
  refine run_bind_eq_ok_iff.2 ⟨(), { w with disk := d₂ }, ?_, rfl⟩
  exact Workspace.Action.run_onDisk_eq_ok_iff.2 ⟨d₂, hclean, rfl⟩

theorem run_build_eq_ok_iff {rep : BuildReport} : (build c bundler).run w = (.ok rep, w') ↔
    ∃ js es forceInlined d₁ d₂ d₃ d₄, Build.Passes c bundler w.disk js es forceInlined d₁ d₂ d₃ d₄ ∧
      rep = Build.report c js ∧
      w' = { w with disk := d₄, requests := w.requests ++ [Build.request c es forceInlined] } := by
  rw [build_eq, run_bind_eq_ok_iff]
  constructor
  · rintro ⟨⟨js, r⟩, w₂, hprepare, hfinish⟩
    obtain ⟨es, d₁, forceInlined, d₂, hplan, hentries, hdependencies, hclean, rfl, rfl⟩ :=
      Build.run_prepare_eq_ok hprepare
    obtain ⟨_, w₃, hasked, hrest⟩ := run_bind_eq_ok_iff.1 hfinish
    obtain ⟨_, w₄, hwritten, hreport⟩ := run_bind_eq_ok_iff.1 hrest
    obtain ⟨d₃, hbundle, rfl⟩ := Workspace.Action.run_bundle_eq_ok_iff.1 hasked
    obtain ⟨d₄, hsave, rfl⟩ := Workspace.Action.run_onDisk_eq_ok_iff.1 hwritten
    cases hreport
    exact ⟨js, es, forceInlined, d₁, d₂, d₃, d₄,
      ⟨⟨hplan, hentries, hdependencies, hclean, hbundle⟩, hsave⟩, rfl, rfl⟩
  · rintro ⟨js, es, forceInlined, d₁, d₂, d₃, d₄, h, rfl, rfl⟩
    refine ⟨_, _, Build.run_prepare_of h.plan h.entries h.dependencies h.clean, ?_⟩
    refine run_bind_eq_ok_iff.2 ⟨(),
      { w with disk := d₃, requests := w.requests ++ [Build.request c es forceInlined] }, ?_, ?_⟩
    · exact Workspace.Action.run_bundle_eq_ok_iff.2 ⟨d₃, h.bundle, rfl⟩
    refine run_bind_eq_ok_iff.2 ⟨(),
      { w with disk := d₄, requests := w.requests ++ [Build.request c es forceInlined] }, ?_, rfl⟩
    exact Workspace.Action.run_onDisk_eq_ok_iff.2 ⟨d₄, h.save, rfl⟩

/-! ## The disks of the stages -/

theorem Manifest.keeps_save_on {m : Manifest} (hne : destination wd c.manifestPath ≠ l)
    (ht : ¬destination wd (c.manifestPath.withExtension "json.tmp") <+: l) :
    Keeps (At wd l (MakesOn (l ∈ way wd c.outPath))) (m.save c.manifestPath) := by
  have hmanifest : (Component.normal "manifest.json").IsStep := by decide
  apply keeps_save_of (At.isFrame MakesOn.isFrame)
  · intro q hq
    apply keeps_makeDirs_on
    exact fun hempty hway => way_parent?_div hmanifest hq hempty hway
  · exact Replacement.keeps_perform_of_ne MakesOn.isFrame ht hne

theorem Manifest.grows_save (m : Manifest) (p : Path) : Keeps Grows (m.save p) :=
  keeps_save_of Grows.isFrame (fun q _ => grows_makeDirs q) (m.replacement p).grows_perform

/-- In a tree nothing is left below a directory that is removed. -/
theorem Build.none_of_removeStale_below {p : Path} (hd : d.WellFormed)
    (h : (removeStale p).run d = (.ok (), d')) (hl : d.locate p = .ok wd) (hbelow : wd <+: l)
    (hne : l ≠ wd) : d'.node? l = none := by
  rcases removeStale_eq_ok h with ⟨hmissing, rfl⟩ | hrun
  · have hnone := node?_of_nodeAt_notFound hl hmissing
    cases hnl : d'.node? l with
    | none => rfl
    | some n =>
      rw [hd.tree.node?_above hnl hbelow hne.symm] at hnone
      cases hnone
  · obtain ⟨-, hgone, -⟩ := removeAll_eq_ok hrun
    obtain rfl := locate_eq_ok hl
    exact hgone l hbelow hne

/-- Where a directory counts as removed, at most an empty one is left. -/
theorem Build.none_or_directory_of_removeStale {p : Path} (h : (removeStale p).run d = (.ok (), d'))
    (hl : d.locate p = .ok l) : d'.node? l = none ∨ d'.node? l = some .directory := by
  rcases removeStale_eq_ok h with ⟨hmissing, rfl⟩ | hrun
  · exact .inl (node?_of_nodeAt_notFound hl hmissing)
  · obtain ⟨hn, -, -⟩ := removeAll_eq_ok hrun
    obtain rfl := locate_eq_ok hl
    rcases (removes_removeStale h).node? (destination d.workingDir p) with hsame | hnone
    · rw [hsame, (nodeAt_eq_ok hn).2]
      exact .inr rfl
    · exact .inl hnone

/-- What is below another name in the output directory is no manifest and no temporary file. -/
theorem Build.apart_of_sibling {name : String} (hstep : (Component.normal name).IsStep)
    (hname : name ≠ "manifest.json" ∧ name ≠ "manifest.json.tmp")
    (hl : destination wd (c.outPath / name) <+: l) :
    destination wd c.manifestPath ≠ l ∧
      ¬destination wd (c.manifestPath.withExtension "json.tmp") <+: l := by
  have hmanifest : (Component.normal "manifest.json").IsStep := by decide
  have htemporary : (Component.normal "manifest.json.tmp").IsStep := by decide
  rw [destination_div hstep] at hl
  constructor
  · rintro rfl
    rw [Config.manifestPath, destination_div hmanifest] at hl
    exact not_prefix_sibling hname.1.symm List.prefix_rfl hl
  · rw [c.temporary_eq, destination_div htemporary]
    exact not_prefix_sibling hname.2 hl

theorem Build.apart_of_artifactDir {dir : String} (hdir : dir ∈ artifactDirs)
    (hl : destination wd (c.outPath / dir) <+: l) :
    destination wd c.manifestPath ≠ l ∧
      ¬destination wd (c.manifestPath.withExtension "json.tmp") <+: l := by
  apply apart_of_sibling (isStep_dir hdir) _ hl
  rcases mem_artifactDirs.1 hdir with rfl | rfl <;> decide

theorem Build.grows_writeEntries (es : List EntryModule) : Keeps Grows (writeEntries es) :=
  keeps_writeEntries_of Grows.isFrame fun _ _ =>
    keeps_writeEntry_of Grows.isFrame (fun p _ => grows_makeDirs p) fun _ _ => grows_write

namespace Build.Bundles

variable {d₁ d₂ d₃ : Disk} (h : Bundles c bundler d js es forceInlined d₁ d₂ d₃)
  (hb : bundler.IsExact) (hd : d.WellFormed)

include h

theorem validate : c.validate = .ok () :=
  validate_of_plan h.plan

theorem workingDir₁ : d₁.workingDir = d.workingDir :=
  (untouched_of_writeEntries h.plan h.entries).1

theorem workingDir₂ : d₂.workingDir = d.workingDir := by
  obtain ⟨d', hjobs, hgroups⟩ := clean_eq_ok_iff.1 h.clean
  rw [workingDir_removeStale hgroups, workingDir_removeStale hjobs, h.workingDir₁]

include hb in
theorem workingDir₃ : d₃.workingDir = d.workingDir := by
  have hwd := hb.workingDir (request c es forceInlined) d₂
  rw [h.bundle] at hwd
  exact hwd.trans h.workingDir₂

include hd in
theorem wellFormed₁ : d₁.WellFormed := by
  have hgrows := grows_writeEntries es d
  rw [h.entries] at hgrows
  exact (hgrows hd).1

include hd in
theorem wellFormed₂ : d₂.WellFormed := by
  have hkeeps : Keeps Preserves (Build.clean c.outPath) :=
    keeps_clean_of Preserves.isFrame fun _ _ _ _ => Removes.preserves
  have hpreserves := hkeeps d₁
  rw [h.clean] at hpreserves
  exact hpreserves (h.wellFormed₁ hd)

include hb hd in
theorem wellFormed₃ : d₃.WellFormed := by
  have hpreserves := hb.wellFormed (request c es forceInlined) d₂
  rw [h.bundle] at hpreserves
  exact hpreserves (h.wellFormed₂ hd)

/-! ### Artifacts -/

theorem reaches₁ : Reaches d₁ c.outPath ∧ Fits (c.outPath / ".ej" / "entries").text := by
  obtain ⟨found, -, -, hes⟩ := plan_eq_ok h.plan
  exact reaches_outPath hes (plan_ne_nil h.plan) (run_writeEntries_eq_ok h.entries)

/-- The directories of artifacts can be looked for when the output directory is there. -/
theorem locate_artifactDir {dir : String} (hdir : dir ∈ artifactDirs) (hwd : d'.workingDir = d.workingDir)
    (hreaches : Reaches d' c.outPath) :
    d'.locate (c.outPath / dir) = .ok (destination d.workingDir (c.outPath / dir)) := by
  have hej : (Component.normal ".ej").IsStep := isStep_entries (by decide)
  have hentries : (Component.normal "entries").IsStep := isStep_entries (by decide)
  have hlong : hasNul dir = false ∧ dir.utf8ByteSize ≤ ".ej".utf8ByteSize + "entries".utf8ByteSize ∧
      dir.utf8ByteSize ≤ maxNameSize := by
    rcases mem_artifactDirs.1 hdir with rfl | rfl <;> decide
  rw [← hwd]
  apply locate_div (isStep_dir hdir) hlong.2.2 _ hreaches
  exact fits_sibling hej hentries (isStep_dir hdir) hlong.1 hlong.2.1 h.reaches₁.2

theorem locate_jobs : d₁.locate (c.outPath / "jobs") = .ok (destination d.workingDir (c.outPath / "jobs")) :=
  h.locate_artifactDir (by decide) h.workingDir₁ h.reaches₁.1

include hd in
/-- No artifact of a job is left when the old ones are removed. -/
theorem none_of_jobs (hl : destination d.workingDir (c.outPath / "jobs") <+: l)
    (hne : l ≠ destination d.workingDir (c.outPath / "jobs")) : d₂.node? l = none := by
  obtain ⟨d', hjobs, hgroups⟩ := clean_eq_ok_iff.1 h.clean
  exact none_removeStale hgroups
    (none_of_removeStale_below (h.wellFormed₁ hd) hjobs h.locate_jobs hl hne)

include hb in
theorem isFile_artifact {e : EntryModule} (he : e ∈ es) :
    d₃.isFile ((request c es forceInlined).artifact e.key) :=
  hb.all _ _ _ h.bundle _ (mem_keys he)

include hb in
/-- The bundler makes nothing but artifacts and the directories on the way to them. -/
theorem makesOn_bundle
    (hl : ∀ e ∈ es, destination d.workingDir ((request c es forceInlined).artifact e.key) ≠ l) :
    MakesOn (∃ e ∈ es, l ∈ way d.workingDir ((request c es forceInlined).artifact e.key))
      (d₂.node? l) (d₃.node? l) := by
  have hkeys : ∀ key ∈ (request c es forceInlined).entries.keys,
      destination d₂.workingDir ((request c es forceInlined).artifact key) ≠ l := by
    intro key hkey
    obtain ⟨e, he, rfl⟩ := mem_of_mem_keys hkey
    rw [h.workingDir₂]
    exact hl e he
  have honly := hb.only _ d₂ l hkeys
  rw [h.bundle, h.workingDir₂] at honly
  rcases honly with hsame | ⟨⟨key, hkey, hway⟩, hmade⟩
  · exact .inl hsame
  · obtain ⟨e, he, rfl⟩ := mem_of_mem_keys hkey
    exact .inr ⟨⟨e, he, hway⟩, hmade⟩

variable (hext : '/' ∉ c.artifactExt.toList)

include hext in
theorem artifact {e : EntryModule} (he : e ∈ es) :
    ∃ dir ∈ artifactDirs, ∃ name, Name.isValid name ∧ e.key = s!"{dir}/{name}" ∧
      (Component.normal s!"{name}.{c.artifactExt}").IsStep ∧
      (request c es forceInlined).artifact e.key = c.outPath / dir / s!"{name}.{c.artifactExt}" := by
  obtain ⟨found, -, -, hes⟩ := plan_eq_ok h.plan
  exact artifact_of_mem_planEntries hes hext (Config.artifactExt_ne_empty h.validate) he

include hb hext in
/-- The output directory is there when the artifacts are. -/
theorem reaches₃ : Reaches d₃ c.outPath := by
  obtain ⟨e, es', rfl⟩ := List.exists_cons_of_ne_nil (plan_ne_nil h.plan)
  obtain ⟨dir, hdir, name, -, -, hstep, hartifact⟩ := h.artifact hext List.mem_cons_self
  have hfile := h.isFile_artifact hb List.mem_cons_self
  obtain ⟨f, hf⟩ := isFile_iff.1 hfile
  obtain ⟨-, -, -, hwalk⟩ := locate_eq_ok_iff.1 (nodeAt_eq_file_iff.1 hf).1
  rw [hartifact] at hwalk
  exact (reaches_of_walk_div hstep hwalk).of_div (isStep_dir hdir)

end Build.Bundles

namespace Build.Passes

variable {d₁ d₂ d₃ d₄ : Disk} (h : Passes c bundler d js es forceInlined d₁ d₂ d₃ d₄)
  (hb : bundler.IsExact) (hd : d.WellFormed) (hext : '/' ∉ c.artifactExt.toList)

include h

theorem grows : Grows d₃ d₄ := by
  have hgrows := (report c js).manifest.grows_save c.manifestPath d₃
  rwa [h.save] at hgrows

include hb hd in
theorem wellFormed₄ : d₄.WellFormed :=
  (h.grows (h.wellFormed₃ hb hd)).1

theorem workingDir₄ : d₄.workingDir = d₃.workingDir := by
  have hmanifest : (Component.normal "manifest.json").IsStep := by decide
  have htemporary : (Component.normal "manifest.json.tmp").IsStep := by decide
  have hne : destination d₃.workingDir c.manifestPath ≠ [] := destination_div_ne_nil hmanifest _ _
  have ht : ¬destination d₃.workingDir (c.manifestPath.withExtension "json.tmp") <+: [] := by
    rw [c.temporary_eq, List.prefix_nil]
    exact destination_div_ne_nil htemporary _ _
  have hkeeps := Manifest.keeps_save_on (m := (report c js).manifest) hne ht d₃ rfl
  rw [h.save] at hkeeps
  exact hkeeps.1

include hb hd in
/-- The manifest is saved with no directory lost. -/
theorem directory₄ (hl : d₃.node? l = some .directory) : d₄.node? l = some .directory :=
  (h.grows (h.wellFormed₃ hb hd)).2 l hl

include hb hext in
/-- When the manifest is saved, all other nodes stay as they are. -/
theorem node?_save (hne : destination d.workingDir c.manifestPath ≠ l)
    (ht : ¬destination d.workingDir (c.manifestPath.withExtension "json.tmp") <+: l) :
    d₄.node? l = d₃.node? l := by
  have hwd := h.workingDir₃ hb
  have hkeeps := Manifest.keeps_save_on (m := (report c js).manifest) hne ht d₃ hwd
  rw [h.save] at hkeeps
  apply hkeeps.2.resolve_right
  rintro ⟨hway, hnone, -⟩
  rw [← hwd] at hway
  rw [(h.reaches₃ hb hext).directory hway] at hnone
  cases hnone

include hb hext hd in
/-- The artifacts are as the bundler has made them when the manifest is saved. -/
theorem isFile_artifact₄ {e : EntryModule} (he : e ∈ es) :
    d₄.node? (destination d.workingDir ((request c es forceInlined).artifact e.key)) =
        d₃.node? (destination d.workingDir ((request c es forceInlined).artifact e.key)) ∧
      d₄.isFile ((request c es forceInlined).artifact e.key) := by
  have hfile := h.isFile_artifact hb he
  have hwd₃ := h.workingDir₃ hb
  obtain ⟨dir, hdir, name, -, -, hstep, hartifact⟩ := h.artifact hext he
  have hbelow : destination d.workingDir (c.outPath / dir) <+:
      destination d.workingDir ((request c es forceInlined).artifact e.key) := by
    rw [hartifact, destination_div hstep]
    exact List.prefix_append _ _
  obtain ⟨hne, ht⟩ := apart_of_artifactDir hdir hbelow
  have hsame := h.node?_save hb hext hne ht
  refine ⟨hsame, ?_⟩
  obtain ⟨f, hf⟩ := isFile_iff.1 hfile
  have hnode := (nodeAt_eq_file_iff.1 hf).2.2
  rw [hwd₃, ← hsame, ← hwd₃] at hnode
  exact isFile_of_directories h.workingDir₄ (fun l _ => h.directory₄ hb hd) hfile hnode

include hb hext hd in
theorem reaches₄ : Reaches d₄ c.outPath :=
  (h.reaches₃ hb hext).of_directories h.workingDir₄ fun _ _ => h.directory₄ hb hd

/-- The paths of a manifest that is saved are not too long. -/
theorem fits_manifest :
    Fits (c.manifestPath.withExtension "json.tmp").text ∧ Fits c.manifestPath.text := by
  obtain ⟨d₅, -, hperform⟩ := Manifest.save_eq_ok h.save
  obtain ⟨d₆, hfits, -, -, hrename⟩ := Replacement.perform_eq_ok hperform
  obtain ⟨-, -, ⟨hlocate, -, -⟩, -⟩ := renameFile_eq_ok hrename
  obtain ⟨hnul, -, hsize, -⟩ := locate_eq_ok_iff.1 hlocate
  exact ⟨hfits, hnul, hsize⟩

/-- Where the output directory is, the manifest is found. -/
theorem nodeAt_manifest (hreaches : Reaches d' c.outPath) {f : File}
    (hf : d'.node? (destination d'.workingDir c.manifestPath) = some (.file f)) :
    d'.nodeAt c.manifestPath = .ok (.file f) := by
  have hmanifest : (Component.normal "manifest.json").IsStep := by decide
  have hshort : "manifest.json".utf8ByteSize ≤ maxNameSize := by decide
  have hlocate := locate_div hmanifest hshort h.fits_manifest.2 hreaches
  exact nodeAt_eq_file_iff.2 ⟨hlocate, ending_div hmanifest c.outPath, hf⟩

include hb hext hd in
theorem readText_manifest : d₄.readText c.manifestPath = .ok (report c js).manifest.render := by
  obtain ⟨f, hf, hcontent⟩ := (Manifest.of_run_save (l := []) h.save).1
  rw [← h.workingDir₄] at hf
  exact readText_of_nodeAt (h.nodeAt_manifest (h.reaches₄ hb hd hext) hf) hcontent

end Build.Passes

end JobBundler
