import JobBundler.Proofs.Build.Losses
import JobBundler.Proofs.Build.WorkingDirectory
import JobBundler.Proofs.Glob.Search
import JobBundler.Proofs.Path.Extension

/-!
# The sources after a build

A build that the bundler does not interfere with leaves alone every file that is no entry module, no
artifact, neither the manifest nor its temporary file, and not below the directories of artifacts.
Nothing keeps the sources out of these places: a source that is in one of them is lost when the build
succeeds, unless it holds the very text that is written there (`build_keeps_sources_iff`).
-/

namespace JobBundler

open Disk

variable {d d' : Disk} {l : Location} {t : Content}

theorem Disk.Holds.unique {t' : Content} {n : Option Node} (h : Holds t n) (h' : Holds t' n) :
    t = t' := by
  obtain ⟨f, hf, rfl⟩ := h
  obtain ⟨f', hf', rfl⟩ := h'
  rw [hf] at hf'
  cases hf'
  rfl

/-! ## The manifest and its temporary file -/

theorem Config.temporary_eq (c : Config) :
    c.manifestPath.withExtension "json.tmp" = c.outPath / "manifest.json.tmp" := by
  have hname : (Path.Component.normal "manifest.json").IsStep := by decide
  have hstem : (Path.Component.normal "manifest.").IsStep := by decide
  have hold : (Path.splitExtension "manifest.json").2 = some "json" := by decide
  have hnew : (Path.splitExtension "manifest.").1 ++ "." ++ "json.tmp" = "manifest.json.tmp" := by
    decide
  rw [manifestPath, Path.withExtension_div hname hstem hold (by decide),
    Path.setExtension_div hstem (by decide) (hnew ▸ by decide), hnew]

theorem Manifest.save_eq_ok {m : Manifest} {p : Path} (h : (m.save p).run d = (.ok (), d')) :
    ∃ d₁, d₁.workingDir = d.workingDir ∧ (m.replacement p).perform.run d₁ = (.ok (), d') := by
  unfold save at h
  rw [Action.run_orFail_eq_ok_iff] at h
  split at h
  · rename_i parent _
    obtain ⟨_, d₁, h₁, h⟩ := run_bind_eq_ok_iff.1 h
    have hm : At d.workingDir [] Makes d ((makeDirs parent).run d).2 := keeps_makeDirs parent d
    rw [h₁] at hm
    exact ⟨d₁, (hm rfl).1, h⟩
  · exact ⟨d, rfl, h⟩

theorem Config.temporary_not_prefix (c : Config) (wd : Location) :
    ¬destination wd (c.manifestPath.withExtension "json.tmp") <+: destination wd c.manifestPath := by
  have htemporary : (Path.Component.normal "manifest.json.tmp").IsStep := by decide
  have hmanifest : (Path.Component.normal "manifest.json").IsStep := by decide
  rw [c.temporary_eq, destination_div htemporary, manifestPath, destination_div hmanifest,
    List.prefix_append_right_inj]
  decide

/-- A manifest that is saved is in its file, and there is no temporary file any more. -/
theorem Manifest.of_run_save {m : Manifest} {c : Config}
    (h : (m.save c.manifestPath).run d = (.ok (), d')) :
    Holds (.text m.render) (d'.node? (destination d.workingDir c.manifestPath)) ∧
      (destination d.workingDir (c.manifestPath.withExtension "json.tmp") <+: l → l ≠ [] →
        d'.node? l = none) := by
  obtain ⟨d₁, hwd, hp⟩ := save_eq_ok h
  rw [← hwd]
  have hnot := c.temporary_not_prefix d₁.workingDir
  unfold replacement at hp
  generalize c.manifestPath.withExtension "json.tmp" = temporary at *
  obtain ⟨hh, hnone⟩ := Replacement.of_run_perform (l := l) hp
  exact ⟨hh, hnone hnot⟩

/-! ## Bundlers that show what is lost -/

namespace Bundler

/-- Makes nothing. -/
def idle : Bundler := fun _ => pure ()

/-- Fails, after it has written another text to a location if that is the place of an artifact. -/
def spoiling (l : Location) (t : Content) : Bundler := fun r => do
  let d ← get
  if ∃ key ∈ r.entries.keys, destination d.workingDir (r.artifact key) = l then
    set (d.put l (.file { content := t }))
  throw (.failed standInName "" "")

theorem writesOnlyArtifacts_idle : idle.WritesOnlyArtifacts :=
  fun _ _ _ _ hd => ⟨hd, .inl rfl⟩

theorem writesOnlyArtifacts_failing (stderr : String) : (failing stderr).WritesOnlyArtifacts :=
  fun _ _ _ _ hd => ⟨hd, .inl rfl⟩

theorem writesOnlyArtifacts_standIn : standIn.WritesOnlyArtifacts := by
  intro r d m hm
  have hR : IsFrame (At d.workingDir m Makes) := At.isFrame Makes.isFrame
  suffices hk : Keeps (At d.workingDir m Makes) (standIn r) from hk d
  refine .forM hR fun key hkey => Action.keeps_orFail ?_ _
  have hwrite (content : Content) : Keeps (At d.workingDir m Makes)
      (Action.change (write (r.artifact key) content)) := by
    refine Action.keeps_change hR fun d₁ d₂ h hwd => ?_
    obtain ⟨f, -, -, rfl, hn⟩ := write_eq_ok h
    refine at_put Makes.isFrame (ne_nil_of_ne_directory (d := d₁) ?_) (fun hl => ?_) hwd
    · rcases hn with hn | ⟨g, hn, -⟩ <;> simp [hn]
    · exact absurd (hwd ▸ hl) (hm key hkey)
  unfold writeWithDirs
  split
  · exact .bind hR (keeps_makeDirs _) fun _ => hwrite _
  · exact hwrite _

theorem run_spoiling (r : BundleRequest) (d : Disk) :
    (spoiling l t r).run d = (.error (.failed standInName "" ""),
      if ∃ key ∈ r.entries.keys, destination d.workingDir (r.artifact key) = l then
        d.put l (.file { content := t }) else d) := by
  unfold spoiling
  rw [Action.run_get_bind]
  split <;> rfl

theorem writesOnlyArtifacts_spoiling (hl : l ≠ []) (t : Content) :
    (spoiling l t).WritesOnlyArtifacts := by
  intro r d m hm hd
  rw [run_spoiling]
  split
  · rename_i h
    obtain ⟨key, hkey, rfl⟩ := h
    exact at_put Makes.isFrame hl (fun h => absurd h (hm key hkey)) hd
  · exact ⟨hd, .inl rfl⟩

end Bundler

theorem Workspace.Action.run_bundle_idle {ε : Type} (r : BundleRequest) (f : BundleError → ε)
    (w : Workspace) :
    (bundle .idle r f).run w = (.ok (), { w with requests := w.requests ++ [r] }) :=
  rfl

/-! ## Builds that go through -/

namespace Build

theorem run_of_bundle_error {c : Config} {bundler : Bundler} {w w' : Workspace} {js : List Job}
    {r : BundleRequest} {e : BundleError} (h : (prepare c).run w = (.ok (js, r), w'))
    (hb : (bundler r).run w'.disk = (.error e, d)) :
    (build c bundler).run w =
      (.error (.bundle e), { w' with disk := d, requests := w'.requests ++ [r] }) := by
  rw [build_eq, run_bind, h]
  dsimp only
  unfold finish
  rw [run_bind, Workspace.Action.run_bundle, hb]
  rfl

theorem node?_of_clean {p : Path} (h : (clean p).run d = (.ok (), d')) :
    d'.node? l = d.node? l ∨ d'.node? l = none := by
  obtain ⟨d₁, h₁, h₂⟩ := clean_eq_ok_iff.1 h
  rcases (removes_removeStale h₂).node? l with h | h
  · rw [h]
    exact (removes_removeStale h₁).node? l
  · exact .inr h

end Build

/-- The disks of a build that goes through: with the entries, without the old artifacts, and at the
end. -/
structure Build.Course (c : Config) (w : Workspace) (js : List Job) (es : List EntryModule)
    (forceInlined : List String) (d₁ d₂ d₃ : Disk) : Prop where
  plan : Build.plan c w.disk = .ok (js, es)
  entries : (es.forM writeEntry).run w.disk = (.ok (), d₁)
  clean : (Build.clean c.outPath).run d₁ = (.ok (), d₂)
  prepare : (Build.prepare c).run w = (.ok (js, request c es forceInlined), { w with disk := d₂ })
  save : ((report c js).manifest.save c.manifestPath).run d₂ = (.ok (), d₃)
  disk : ((build c .idle).run w).2.disk = d₃

theorem Build.exists_course {c : Config} {w w' : Workspace} {js : List Job} {es : List EntryModule}
    {rep : BuildReport} (hplan : plan c w.disk = .ok (js, es))
    (h : (build c .idle).run w = (.ok rep, w')) :
    ∃ forceInlined d₁ d₂ d₃, Course c w js es forceInlined d₁ d₂ d₃ := by
  have h' := h
  rw [build_eq] at h
  obtain ⟨⟨js', r⟩, w₂, hprep, hfin⟩ := run_bind_eq_ok_iff.1 h
  obtain ⟨es', d₁, forceInlined, d₂, hplan', hw, -, hc, rfl, rfl⟩ := run_prepare_eq_ok hprep
  rw [hplan] at hplan'
  cases hplan'
  dsimp only at hfin
  unfold finish at hfin
  obtain ⟨_, w₃, hb, hfin⟩ := run_bind_eq_ok_iff.1 hfin
  obtain ⟨_, w₄, hs, hfin⟩ := run_bind_eq_ok_iff.1 hfin
  obtain ⟨d₃, hsave, rfl⟩ := Workspace.Action.run_onDisk_eq_ok_iff.1 hs
  rw [Workspace.Action.run_bundle_idle] at hb
  cases hb
  cases hfin
  exact ⟨forceInlined, d₁, d₂, d₃, hplan, run_writeEntries_eq_ok hw, hc, hprep, hsave, by rw [h']⟩

/-! ## What is kept is spared -/

theorem Build.mem_keys {c : Config} {es : List EntryModule} {forceInlined : List String}
    {e : EntryModule} (h : e ∈ es) : e.key ∈ (request c es forceInlined).entries.keys :=
  Index.mem_keys_ofList (List.mem_map.2 ⟨e, h, rfl⟩)

theorem Content.exists_ne (t : Content) : ∃ t', t' ≠ t := by
  cases t with
  | text s => exact ⟨.binary [], by simp⟩
  | binary bytes => exact ⟨.text "", by simp⟩

theorem Disk.Holds.ne_none {n : Option Node} (h : Holds t n) : n ≠ none := by
  rintro rfl
  obtain ⟨f, hf, -⟩ := h
  cases hf

theorem Disk.Holds.ne_nil (h : Holds t (d.node? l)) : l ≠ [] := by
  obtain ⟨f, hf, -⟩ := h
  exact ne_nil_of_ne_directory (d := d) (by simp [hf])

namespace Build.Course

variable {c : Config} {w : Workspace} {js : List Job} {es : List EntryModule}
  {forceInlined : List String} {d₁ d₂ d₃ : Disk}

theorem stays (h : Course c w js es forceInlined d₁ d₂ d₃) (l : Location) :
    At w.disk.workingDir l StaysDirectory w.disk d₁ := by
  have hR : IsFrame (At w.disk.workingDir l StaysDirectory) := At.isFrame StaysDirectory.isFrame
  have hk : Keeps (At w.disk.workingDir l StaysDirectory) (es.forM writeEntry) :=
    .forM hR fun e _ => keeps_writeEntry_staysDirectory e
  have hd := hk w.disk
  rwa [h.entries] at hd

theorem workingDir_entries (h : Course c w js es forceInlined d₁ d₂ d₃) :
    d₁.workingDir = w.disk.workingDir :=
  (h.stays [] rfl).1

theorem workingDir_clean (h : Course c w js es forceInlined d₁ d₂ d₃) :
    d₂.workingDir = w.disk.workingDir := by
  obtain ⟨d', h₁, h₂⟩ := clean_eq_ok_iff.1 h.clean
  rw [workingDir_removeStale h₂, workingDir_removeStale h₁, h.workingDir_entries]

theorem node?_clean (h : Course c w js es forceInlined d₁ d₂ d₃) (hl : Holds t (d₂.node? l)) :
    Holds t (d₁.node? l) := by
  rcases node?_of_clean h.clean with heq | hnone
  · exact heq ▸ hl
  · exact absurd hnone hl.ne_none

theorem not_removed (h : Course c w js es forceInlined d₁ d₂ d₃) (htree : w.disk.IsTree)
    (hway : ∀ m ∈ way w.disk.workingDir c.outPath,
      ¬destination w.disk.workingDir (c.outPath / "jobs") <+: m)
    (hbefore : Holds t (w.disk.node? l)) (hl : Holds t (d₂.node? l)) {dir : String}
    (hdir : dir ∈ artifactDirs) : ¬destination w.disk.workingDir (c.outPath / dir) <+: l := by
  intro hbelow
  obtain ⟨found, -, -, hes⟩ := plan_eq_ok h.plan
  obtain ⟨hreaches, hfits⟩ := reaches_outPath hes (plan_ne_nil h.plan) h.entries
  obtain ⟨f, hf, -⟩ := h.node?_clean hl
  obtain ⟨f', hf', -⟩ := hbefore
  rw [← h.workingDir_entries] at hway hbelow
  refine hl.ne_none (none_of_clean h.clean hreaches (fun dir hdir => ?_) hway (fun m hm hne => ?_)
    hf hdir hbelow)
  · have hej : (Path.Component.normal ".ej").IsStep := by decide
    have hentries : (Path.Component.normal "entries").IsStep := by decide
    rcases mem_artifactDirs.1 hdir with rfl | rfl
    all_goals exact fits_sibling hej hentries (by decide) (by decide) (by decide) hfits
  · exact (h.stays m rfl).2 (htree.node?_above hf' hm hne)

theorem entry_eq (h : Course c w js es forceInlined d₁ d₂ d₃) (hl : Holds t (d₂.node? l))
    {e : EntryModule} (he : e ∈ es) (hd : destination w.disk.workingDir e.path = l) :
    .text e.text = t := by
  obtain ⟨found, -, -, hes⟩ := plan_eq_ok h.plan
  have hsame : ∀ e' ∈ es, destination w.disk.workingDir e'.path =
      destination w.disk.workingDir e.path → e'.text = e.text := by
    intro e' he' heq
    rw [eq_of_place_eq hes he' he (List.reverse_inj.1 heq)]
  have hh := holds_of_writeEntries h.entries he hsame
  rw [hd] at hh
  exact hh.unique (h.node?_clean hl)

theorem artifact_ne (h : Course c w js es forceInlined d₁ d₂ d₃) (hne : l ≠ [])
    (hkeeps : ∀ bundler : Bundler, bundler.WritesOnlyArtifacts →
      Holds t (((build c bundler).run w).2.disk.node? l))
    {e : EntryModule} (he : e ∈ es) :
    destination w.disk.workingDir (c.artifactFile s!"{e.key}.{c.artifactExt}") ≠ l := by
  intro hd
  obtain ⟨t', ht'⟩ := t.exists_ne
  have hspoiled := Bundler.run_spoiling (l := l) (t := t') (request c es forceInlined) d₂
  rw [if_pos ⟨e.key, mem_keys he, h.workingDir_clean ▸ hd⟩] at hspoiled
  have hh := hkeeps _ (Bundler.writesOnlyArtifacts_spoiling hne t')
  rw [run_of_bundle_error h.prepare hspoiled, node?_put hne, if_pos rfl] at hh
  exact ht' (Holds.unique ⟨_, rfl, rfl⟩ hh)

/-- A file that no bundler of artifacts can make a build lose is spared. -/
theorem spares (h : Course c w js es forceInlined d₁ d₂ d₃) (htree : w.disk.IsTree)
    (hway : ∀ m ∈ way w.disk.workingDir c.outPath,
      ¬destination w.disk.workingDir (c.outPath / "jobs") <+: m)
    (hbefore : Holds t (w.disk.node? l))
    (hkeeps : ∀ bundler : Bundler, bundler.WritesOnlyArtifacts →
      Holds t (((build c bundler).run w).2.disk.node? l)) :
    Spares c w.disk.workingDir js es l t := by
  have hne : l ≠ [] := hbefore.ne_nil
  have hfailed := hkeeps (.failing "") (Bundler.writesOnlyArtifacts_failing _)
  rw [run_of_bundle_error h.prepare rfl] at hfailed
  have hidle := hkeeps .idle Bundler.writesOnlyArtifacts_idle
  rw [h.disk] at hidle
  obtain ⟨hmanifest, htemporary⟩ := Manifest.of_run_save (l := l) h.save
  rw [h.workingDir_clean] at hmanifest htemporary
  exact
    { removal := fun dir hdir => h.not_removed htree hway hbefore hfailed hdir
      entry := fun e he hd => h.entry_eq hfailed he hd
      artifact := fun e he => h.artifact_ne hne hkeeps he
      manifest := fun hd => (hd ▸ hmanifest).unique hidle
      temporary := fun hbelow => hidle.ne_none (htemporary hbelow hne) }

end Build.Course

/-! ## Job sources -/

theorem Discovery.holds_of_mem_findSources {c : Config} {ps : List Path} {p : Path}
    (h : findSources c d = .ok ps) (hp : p ∈ ps) :
    ∃ t, Holds t (d.node? (destination d.workingDir p)) := by
  obtain ⟨f, hf⟩ := isFile_iff.1 (isFile_of_mem_findSources h hp)
  exact ⟨f.content, f, (nodeAt_eq_ok hf).2, rfl⟩

/-- After a build, the files at these paths are where they were, with what they held. -/
def Build.KeepsSources (c : Config) (bundler : Bundler) (w : Workspace) (ps : List Path) : Prop :=
  ∀ p ∈ ps, ∃ t, Holds t (w.disk.node? (destination w.disk.workingDir p)) ∧
    Holds t (((build c bundler).run w).2.disk.node? (destination w.disk.workingDir p))

/-- A build that has planned these jobs and entries spares the files at these paths. -/
def Build.SparesSources (c : Config) (d : Disk) (ps : List Path) (js : List Job)
    (es : List EntryModule) : Prop :=
  ∀ p ∈ ps, ∃ t, Holds t (d.node? (destination d.workingDir p)) ∧
    Spares c d.workingDir js es (destination d.workingDir p) t

/-- Job sources that the plan of a build spares are kept, wherever the build stops. They are kept for
no other reason, when the build goes through as long as the bundler does nothing, and the way to the
output directory does not lead through the directory of artifacts. -/
theorem build_keeps_sources_iff {c : Config} {w : Workspace} {ps : List Path}
    (hps : Discovery.findSources c w.disk = .ok ps) :
    (∀ bundler : Bundler, bundler.WritesOnlyArtifacts →
      (∀ js es, Build.plan c w.disk = .ok (js, es) → Build.SparesSources c w.disk ps js es) →
        Build.KeepsSources c bundler w ps) ∧
    ∀ js es, Build.plan c w.disk = .ok (js, es) → ((build c .idle).run w).1.isOk →
      w.disk.IsTree →
      (∀ m ∈ way w.disk.workingDir c.outPath,
        ¬destination w.disk.workingDir (c.outPath / "jobs") <+: m) →
      ((∀ bundler : Bundler, bundler.WritesOnlyArtifacts → Build.KeepsSources c bundler w ps) ↔
        Build.SparesSources c w.disk ps js es) := by
  have hkept (bundler : Bundler) (hb : bundler.WritesOnlyArtifacts)
      (hs : ∀ js es, Build.plan c w.disk = .ok (js, es) →
        Build.SparesSources c w.disk ps js es) : Build.KeepsSources c bundler w ps := by
    intro p hp
    obtain ⟨t, ht⟩ := Discovery.holds_of_mem_findSources hps hp
    refine ⟨t, ht, retains_build hb (fun js es hplan => ?_) ht⟩
    obtain ⟨t', ht', hspares⟩ := hs js es hplan p hp
    rwa [ht.unique ht']
  refine ⟨hkept, fun js es hplan hidle htree hway => ⟨fun hall p hp => ?_, fun hs bundler hb => ?_⟩⟩
  · rcases hrun : (build c .idle).run w with ⟨e | rep, w'⟩
    · rw [hrun] at hidle
      cases hidle
    · obtain ⟨_, _, _, _, hcourse⟩ := Build.exists_course hplan hrun
      obtain ⟨t, ht⟩ := Discovery.holds_of_mem_findSources hps hp
      refine ⟨t, ht, hcourse.spares htree hway ht fun bundler hb => ?_⟩
      obtain ⟨t', ht', hafter⟩ := hall bundler hb p hp
      rwa [ht.unique ht']
  · refine hkept bundler hb fun js' es' hplan' => ?_
    rw [hplan] at hplan'
    cases hplan'
    exact hs

theorem Except.exists_eq_ok_iff {ε α : Type} {x : Except ε α} {P : α → Prop} :
    (∃ a, x = .ok a ∧ P a) ↔ ∃ a ∈ x.toOption, P a := by
  cases x <;> simp [Except.toOption]

/-- With the output directory of its own, a project loses no source. -/
theorem plainProject_keeps_sources :
    let c : Config := { pattern := "a.ts" }
    let w := oneJob ["w"] ["w"]
    Discovery.findSources c w.disk = .ok [⟨"a.ts"⟩] ∧
      ∀ bundler : Bundler, bundler.WritesOnlyArtifacts →
        Build.KeepsSources c bundler w [⟨"a.ts"⟩] := by
  intro c w
  have hps : Discovery.findSources c w.disk = .ok [⟨"a.ts"⟩] := by decide +kernel
  have hplan : ∃ x, Build.plan c w.disk = .ok x ∧
      Build.Spares c ["w"] x.1 x.2 ["w", "a.ts"] (.text "@job export class A {}") := by
    refine Except.exists_eq_ok_iff.2 ?_
    decide +kernel
  have hidle : ((build c .idle).run w).1.isOk := by decide +kernel
  obtain ⟨⟨js, es⟩, hplan, hspares⟩ := hplan
  refine ⟨hps, ((build_keeps_sources_iff hps).2 js es hplan hidle (by decide) (by decide)).2 ?_⟩
  intro p hp
  obtain rfl := List.mem_singleton.1 hp
  exact ⟨_, ⟨_, rfl, rfl⟩, hspares⟩

/-- A project whose artifacts are made among its sources loses them, when all goes well. -/
theorem build_loses_sources :
    let c : Config := { pattern := "jobs/*.ts", outDir := ⟨"."⟩ }
    let w := oneJob ["w"] ["w", "jobs"]
    c.validate = .ok () ∧ Discovery.findSources c w.disk = .ok [⟨"jobs/a.ts"⟩] ∧
      Bundler.standIn.WritesOnlyArtifacts ∧ ((build c .standIn).run w).1.isOk ∧
      ((build c .standIn).run w).2.disk.node? ["w", "jobs", "a.ts"] = none :=
  ⟨by decide +kernel, by decide +kernel, Bundler.writesOnlyArtifacts_standIn, by decide +kernel⟩

end JobBundler
