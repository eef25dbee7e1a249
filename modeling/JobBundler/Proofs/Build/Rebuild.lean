import JobBundler.Proofs.Build.Course
import JobBundler.Proofs.Glob.Search

/-!
# Builds that are repeated

What a build makes does not stand in the way of the next one: entries that are there can be written again
(`Build.exists_writeEntries_again`), the artifacts can be removed and the manifest replaced. So the next build
has the same outcome when it finds the same sources (`rebuild_repeats_iff`). It need not: an entry of the
last build may match the pattern (`rebuild_finds_entries`).
-/

namespace JobBundler

open Disk
open JobBundler.Path (Component)

variable {c : Config} {bundler : Bundler} {d d' : Disk} {w w' : Workspace} {wd l : Location}
  {js : List Job} {es : List EntryModule} {forceInlined : List String}

/-- A manifest can be saved where there is one, when nothing is in the place of the temporary file. -/
theorem Manifest.exists_save {m : Manifest} {p : Path} (hfile : d.isFile p)
    (hl : d.locate (p.withExtension "json.tmp") = .ok (destination d.workingDir (p.withExtension "json.tmp")))
    (hname : ending (p.withExtension "json.tmp") = .name)
    (hnone : d.node? (destination d.workingDir (p.withExtension "json.tmp")) = none) :
    ∃ d', (m.save p).run d = (.ok (), d') := by
  obtain ⟨d', hperform⟩ : ∃ d', (m.replacement p).perform.run d = (.ok (), d') :=
    Replacement.exists_perform hfile hl hname hnone
  refine ⟨d', ?_⟩
  unfold save
  rw [Action.run_orFail_eq_ok_iff]
  split
  · rename_i parent hparent
    have hmake : (makeDirs parent).run d = (.ok (), d) :=
      run_makeDirs_of_isDirectory fun hne => isDirectory_of_parent? hfile hparent hne
    exact run_bind_eq_ok_iff.2 ⟨(), d, hmake, hperform⟩
  · exact hperform

namespace Build

/-! ## What a build leaves alone -/

/-- A build neither writes nor removes anything at the location, but may make a directory there. -/
structure Avoids (c : Config) (wd l : Location) : Prop where
  entries : ¬destination wd (c.outPath / ".ej") <+: l
  artifacts : ∀ dir ∈ artifactDirs, ¬destination wd (c.outPath / dir) <+: l
  manifest : destination wd c.manifestPath ≠ l
  temporary : ¬destination wd (c.manifestPath.withExtension "json.tmp") <+: l

instance (c : Config) (wd l : Location) : Decidable (Avoids c wd l) :=
  decidable_of_iff
    (¬destination wd (c.outPath / ".ej") <+: l ∧
      (∀ dir ∈ artifactDirs, ¬destination wd (c.outPath / dir) <+: l) ∧
      destination wd c.manifestPath ≠ l ∧
      ¬destination wd (c.manifestPath.withExtension "json.tmp") <+: l)
    ⟨fun ⟨h₁, h₂, h₃, h₄⟩ => ⟨h₁, h₂, h₃, h₄⟩, fun ⟨h₁, h₂, h₃, h₄⟩ => ⟨h₁, h₂, h₃, h₄⟩⟩

/-- What is below the directory of the entries is neither an artifact nor a manifest. -/
theorem apart_of_entries (hl : destination wd (c.outPath / ".ej") <+: l) :
    (∀ dir ∈ artifactDirs, ¬destination wd (c.outPath / dir) <+: l) ∧
      destination wd c.manifestPath ≠ l ∧
      ¬destination wd (c.manifestPath.withExtension "json.tmp") <+: l := by
  have hej : (Component.normal ".ej").IsStep := isStep_entries (by decide)
  exact ⟨fun dir hdir => not_artifact_of_entries hdir hl, apart_of_sibling hej (by decide) hl⟩

theorem keeping_writeEntry (e : EntryModule) : Keeps Keeping (writeEntry e) :=
  keeps_writeEntry_of Keeping.isFrame (fun p _ => keeping_makeDirs p) fun _ _ => keeping_write

theorem isFile_of_writeEntry {e : EntryModule} (h : (writeEntry e).run d = (.ok (), d')) :
    d'.isFile e.path := by
  obtain ⟨d₁, -, hw⟩ := writeEntry_eq_ok h
  exact isFile_of_write hw

namespace Bundles

variable {d₁ d₂ d₃ : Disk} (h : Bundles c bundler d js es forceInlined d₁ d₂ d₃)
  (hb : bundler.IsExact) (hext : '/' ∉ c.artifactExt.toList)

include h

/-- Where no entry is, nothing but a directory is made with the entries. -/
theorem makesOn_writeEntries (hl : ¬destination d.workingDir (c.outPath / ".ej") <+: l) :
    MakesOn (l ∈ way d.workingDir c.outPath) (d.node? l) (d₁.node? l) := by
  obtain ⟨found, -, -, hes⟩ := plan_eq_ok h.plan
  have hkeeps := keeps_writeEntries_on hes hl d rfl
  rw [h.entries] at hkeeps
  exact hkeeps.2

theorem node?_clean (hl : ∀ dir ∈ artifactDirs, ¬destination d.workingDir (c.outPath / dir) <+: l) :
    d₂.node? l = d₁.node? l := by
  have hkeeps : Keeps (At d.workingDir l Unchanged) (Build.clean c.outPath) :=
    keeps_clean_of (At.isFrame Unchanged.isFrame) fun dir hdir _ _ =>
      Removes.at_of_not_below Unchanged.isFrame (hl dir hdir)
  have hclean := hkeeps d₁ h.workingDir₁
  rw [h.clean] at hclean
  exact hclean.2

include hb hext in
/-- Outside the directories of artifacts the bundler changes nothing. -/
theorem node?_bundle (hl : ∀ dir ∈ artifactDirs, ¬destination d.workingDir (c.outPath / dir) <+: l) :
    d₃.node? l = d₁.node? l := by
  have hbelow {e : EntryModule} (he : e ∈ es) : ∃ dir ∈ artifactDirs,
      destination d.workingDir (c.outPath / dir) <+:
        destination d.workingDir ((request c es forceInlined).artifact e.key) ∧
      (l ∈ way d.workingDir ((request c es forceInlined).artifact e.key) →
        l ∈ way d.workingDir c.outPath) := by
    obtain ⟨dir, hdir, name, -, -, hstep, hartifact⟩ := h.artifact hext he
    rw [hartifact, destination_div hstep, mem_way_div hstep, mem_way_div (isStep_dir hdir)]
    refine ⟨dir, hdir, List.prefix_append _ _, ?_⟩
    rintro ((hway | heq) | heq)
    · exact hway
    · exact absurd (heq ▸ List.prefix_rfl) (hl dir hdir)
    · rw [destination_div hstep] at heq
      exact absurd (heq ▸ List.prefix_append _ _) (hl dir hdir)
  have hother : ∀ e ∈ es, destination d.workingDir ((request c es forceInlined).artifact e.key) ≠ l := by
    intro e he heq
    obtain ⟨dir, hdir, hprefix, -⟩ := hbelow he
    exact hl dir hdir (heq ▸ hprefix)
  rw [← h.node?_clean hl]
  rcases h.makesOn_bundle hb hother with hsame | ⟨⟨e, he, hway⟩, hnone, -⟩
  · exact hsame
  · -- On the way to the output directory nothing is missing.
    obtain ⟨dir, hdir, -, hout⟩ := hbelow he
    rw [h.node?_clean hl, h.reaches₁.1.directory (h.workingDir₁ ▸ hout hway)] at hnone
    cases hnone

/-- The entries are files with their texts when they are written. -/
theorem entry_written {e : EntryModule} (he : e ∈ es) :
    d₁.isFile e.path ∧ Holds (.text e.text) (d₁.node? (destination d.workingDir e.path)) := by
  obtain ⟨found, -, -, hes⟩ := plan_eq_ok h.plan
  have hrun : (es.forM writeEntry).run d = (.ok (), d₁) := run_writeEntries_eq_ok h.entries
  obtain ⟨d', d'', -, hwrite, hafter⟩ :=
    exists_run_of_mem Keeping.isFrame (fun e _ => keeping_writeEntry e) hrun he
  refine ⟨hafter.isFile (isFile_of_writeEntry hwrite), holds_of_writeEntries hrun he ?_⟩
  intro e' he' heq
  rw [eq_of_place_eq hes he' he (List.reverse_inj.1 heq)]

end Bundles

namespace Passes

variable {d₁ d₂ d₃ d₄ : Disk} (h : Passes c bundler d js es forceInlined d₁ d₂ d₃ d₄)
  (hb : bundler.IsExact) (hd : d.WellFormed) (hext : '/' ∉ c.artifactExt.toList)

include h hb

theorem workingDir_eq : d₄.workingDir = d.workingDir :=
  h.workingDir₄.trans (h.workingDir₃ hb)

include hext

/-- What is neither an artifact nor a manifest stays as it is when the entries are written. -/
theorem node?_after (hl : ∀ dir ∈ artifactDirs, ¬destination d.workingDir (c.outPath / dir) <+: l)
    (hne : destination d.workingDir c.manifestPath ≠ l)
    (ht : ¬destination d.workingDir (c.manifestPath.withExtension "json.tmp") <+: l) :
    d₄.node? l = d₁.node? l :=
  (h.node?_save hb hext hne ht).trans (h.node?_bundle hb hext hl)

theorem node?_of_avoids (hl : Avoids c d.workingDir l) : d₄.node? l = d₁.node? l :=
  h.node?_after hb hext hl.artifacts hl.manifest hl.temporary

/-- What is there before a build that avoids it is there after it. -/
theorem node?_of_avoids_of_ne_none (hl : Avoids c d.workingDir l) (hn : d.node? l ≠ none) :
    d₄.node? l = d.node? l := by
  rw [h.node?_of_avoids hb hext hl]
  rcases h.makesOn_writeEntries hl.entries with hsame | ⟨-, hnone, -⟩
  · exact hsame
  · exact absurd hnone hn

include hd in
/-- The entries are there still when the build is done. -/
theorem entry_left {e : EntryModule} (he : e ∈ es) :
    d₄.isFile e.path ∧ Holds (.text e.text) (d₄.node? (destination d₄.workingDir e.path)) := by
  obtain ⟨found, -, -, hes⟩ := plan_eq_ok h.plan
  obtain ⟨hfile, hholds⟩ := h.entry_written he
  have hwd : d₄.workingDir = d.workingDir := h.workingDir_eq hb
  have hwd₁ : d₄.workingDir = d₁.workingDir := hwd.trans h.workingDir₁.symm
  have hsame {m : Location} (hm : destination d.workingDir (c.outPath / ".ej") <+: m) :
      d₄.node? m = d₁.node? m := by
    obtain ⟨hl, hne, ht⟩ := apart_of_entries hm
    exact h.node?_after hb hext hl hne ht
  have hnode := hsame (way_of_mem_planEntries hes he (l := [])).1
  rw [hwd, hnode]
  refine ⟨?_, hholds⟩
  obtain ⟨f, hf, -⟩ := hholds
  rw [hf, ← h.workingDir₁] at hnode
  apply isFile_of_directories hwd₁ _ hfile hnode
  intro m hm hdir
  rw [h.workingDir₁] at hm
  rcases mem_way_entry hes he hm with hway | hbelow
  · exact (h.reaches₄ hb hd hext).directory (hwd ▸ hway)
  · rw [hsame hbelow, hdir]

end Passes

/-! ## Doing again what a build has done -/

theorem exists_writeEntry_again {e : EntryModule} (hfile : d.isFile e.path)
    (hholds : Holds (.text e.text) (d.node? (destination d.workingDir e.path))) :
    ∃ d', (writeEntry e).run d = (.ok (), d') ∧ Alike d d' := by
  obtain ⟨d', hwrite, halike⟩ := exists_write_again hfile hholds
  refine ⟨d', ?_, halike⟩
  have hchange : (Action.change (Disk.write e.path (.text e.text))).run d = (.ok (), d') :=
    Action.run_change_eq_ok_iff.2 hwrite
  unfold writeEntry
  split
  · rename_i parent hparent
    have hmake : (makeDirs parent).run d = (.ok (), d) :=
      run_makeDirs_of_isDirectory fun hne => isDirectory_of_parent? hfile hparent hne
    exact run_bind_eq_ok_iff.2 ⟨(), d, Action.run_orFail_eq_ok_iff.2 hmake,
      Action.run_orFail_eq_ok_iff.2 hchange⟩
  · exact Action.run_orFail_eq_ok_iff.2 hchange

/-- Entries that are on the disk can be written again, and then nothing changes. -/
theorem exists_writeEntries_again (h : ∀ e ∈ es, d.isFile e.path ∧
    Holds (.text e.text) (d.node? (destination d.workingDir e.path))) :
    ∃ d', (writeEntries es).run d = (.ok (), d') ∧ Alike d d' := by
  have hresults : ∃ d', (es.mapM fun e => (writeEntry e).attempt : Action BuildError _).run d =
      (.ok (es.map fun _ => .ok ()), d') ∧ Alike d d' := by
    induction es generalizing d with
    | nil => exact ⟨d, rfl, Alike.isFrame.refl d⟩
    | cons e es ih =>
      obtain ⟨hfile, hholds⟩ := h e List.mem_cons_self
      obtain ⟨d₁, hwrite, halike⟩ := exists_writeEntry_again hfile hholds
      have hrest : ∀ e ∈ es, d₁.isFile e.path ∧
          Holds (.text e.text) (d₁.node? (destination d₁.workingDir e.path)) := by
        intro e he
        rw [halike.isFile, halike.node?, halike.workingDir]
        exact h e (List.mem_cons_of_mem _ he)
      obtain ⟨d₂, hwrites, halike'⟩ := ih hrest
      refine ⟨d₂, ?_, Alike.isFrame.trans halike halike'⟩
      rw [List.mapM_cons]
      refine run_bind_eq_ok_iff.2 ⟨.ok (), d₁, ?_, run_bind_eq_ok_iff.2 ⟨_, d₂, hwrites, rfl⟩⟩
      rw [Action.run_attempt, hwrite]
  obtain ⟨d', hwrites, halike⟩ := hresults
  refine ⟨d', run_bind_eq_ok_iff.2 ⟨_, d', hwrites, ?_⟩, halike⟩
  clear hwrites h
  induction es with
  | nil => rfl
  | cons e es ih => exact run_bind_eq_ok_iff.2 ⟨(), d', rfl, ih⟩

/-- A directory that is no file can be removed, and one that cannot be looked for counts as removed. -/
theorem exists_removeStale {p : Path}
    (h : d.locate p = .error .notFound ∨
      ∃ m, m ≠ [] ∧ d.locate p = .ok m ∧ (d.node? m = none ∨ d.node? m = some .directory)) :
    ∃ d', (removeStale p).run d = (.ok (), d') := by
  have hmissing (hn : d.nodeAt p = .error .notFound) : ∃ d', (removeStale p).run d = (.ok (), d') := by
    rw [run_removeStale, run_removeAll, hn]
    exact ⟨d, rfl⟩
  rcases h with hl | ⟨m, hne, hl, hn | hn⟩
  · exact hmissing (nodeAt_of_error hl)
  · exact hmissing (nodeAt_of_none hl hn)
  · obtain ⟨d', hrun⟩ := exists_removeAll hl hn hne
    rw [run_removeStale, hrun]
    exact ⟨d', rfl⟩

namespace Bundles

variable {d₁ d₂ d₃ : Disk} (h : Bundles c bundler d js es forceInlined d₁ d₂ d₃)

include h

theorem node?_jobs : d₂.node? (destination d.workingDir (c.outPath / "jobs")) = none ∨
    d₂.node? (destination d.workingDir (c.outPath / "jobs")) = some .directory := by
  obtain ⟨d', hjobs, hgroups⟩ := clean_eq_ok_iff.1 h.clean
  rcases (removes_removeStale hgroups).node? (destination d.workingDir (c.outPath / "jobs")) with hsame | hnone
  · rw [hsame]
    exact none_or_directory_of_removeStale hjobs h.locate_jobs
  · exact .inl hnone

/-- The directory of groups is found unless the way there leads through that of jobs. -/
theorem node?_groups
    (hway : ∀ m ∈ way d.workingDir c.outPath, ¬destination d.workingDir (c.outPath / "jobs") <+: m) :
    d₂.node? (destination d.workingDir (c.outPath / "groups")) = none ∨
      d₂.node? (destination d.workingDir (c.outPath / "groups")) = some .directory := by
  obtain ⟨d', hjobs, hgroups⟩ := clean_eq_ok_iff.1 h.clean
  have hwd : d'.workingDir = d₁.workingDir := workingDir_removeStale hjobs
  have hreaches : Reaches d' c.outPath := by
    refine h.reaches₁.1.of_directories hwd fun m hm hdir => ?_
    rw [h.workingDir₁] at hm
    have hsame : d'.node? m = d₁.node? m :=
      ((removes_removeStale hjobs).at_of_not_below Unchanged.isFrame (hway m hm) h.workingDir₁).2
    rw [hsame, hdir]
  exact none_or_directory_of_removeStale hgroups
    (h.locate_artifactDir (by decide) (hwd.trans h.workingDir₁) hreaches)

end Bundles

namespace Passes

variable {d₁ d₂ d₃ d₄ d₅ : Disk} (h : Passes c bundler d js es forceInlined d₁ d₂ d₃ d₄)
  (hb : bundler.IsExact) (hd : d.WellFormed) (hext : '/' ∉ c.artifactExt.toList)

include h

/-- When the directory of jobs is removed and the way to the output directory is still there, this does not
lead through it. -/
theorem not_jobs_of_reaches (hd₅ : d₅.WellFormed) (hwd₅ : d₅.workingDir = d.workingDir)
    (hreaches₅ : Reaches d₅ c.outPath) (hremove : (removeStale (c.outPath / "jobs")).run d₅ = (.ok (), d'))
    (hreaches : Reaches d' c.outPath) :
    ∀ m ∈ way d.workingDir c.outPath, ¬destination d.workingDir (c.outPath / "jobs") <+: m := by
  intro m hm hbelow
  have hjobsDir : "jobs" ∈ artifactDirs := by decide
  have hwd : d'.workingDir = d.workingDir := (workingDir_removeStale hremove).trans hwd₅
  have hnone : d'.node? m = none := by
    by_cases hne : m = destination d.workingDir (c.outPath / "jobs")
    · rw [hne]
      exact node?_of_nodeAt_notFound (h.locate_artifactDir hjobsDir hwd hreaches)
        (nodeAt_of_removeStale hremove)
    · exact none_of_removeStale_below hd₅ hremove (h.locate_artifactDir hjobsDir hwd₅ hreaches₅) hbelow hne
  rw [← hwd] at hm
  rw [hreaches.directory hm] at hnone
  cases hnone

include hb hext

/-- No file is in the place of a directory of artifacts when the old one is removed. -/
theorem node?_artifactDir {dir : String} (hdir : dir ∈ artifactDirs)
    (hcleaned : d₂.node? (destination d.workingDir (c.outPath / dir)) = none ∨
      d₂.node? (destination d.workingDir (c.outPath / dir)) = some .directory) :
    d₄.node? (destination d.workingDir (c.outPath / dir)) = none ∨
      d₄.node? (destination d.workingDir (c.outPath / dir)) = some .directory := by
  obtain ⟨hmanifest, htemporary⟩ := apart_of_artifactDir hdir List.prefix_rfl
  rw [h.node?_save hb hext hmanifest htemporary]
  have hother : ∀ e ∈ es, destination d.workingDir ((request c es forceInlined).artifact e.key) ≠
      destination d.workingDir (c.outPath / dir) := by
    intro e he heq
    obtain ⟨dir', hdir', name, -, -, hstep, hartifact⟩ := h.artifact hext he
    rw [hartifact, destination_div hstep, destination_div (isStep_dir hdir'),
      destination_div (isStep_dir hdir)] at heq
    have hlength := congrArg List.length heq
    simp at hlength
  rcases h.makesOn_bundle hb hother with hsame | ⟨-, -, hmade⟩
  · rw [hsame]
    exact hcleaned
  · exact .inr hmade

include hd in
/-- After a build, the artifacts can be removed again. -/
theorem exists_clean_again (halike : Alike d₄ d₅) (hd₅ : d₅.WellFormed) :
    ∃ d₆, (Build.clean c.outPath).run d₅ = (.ok (), d₆) := by
  have hjobsDir : "jobs" ∈ artifactDirs := by decide
  have hgroupsDir : "groups" ∈ artifactDirs := by decide
  have hwd₅ : d₅.workingDir = d.workingDir := halike.workingDir.trans (h.workingDir_eq hb)
  have hreaches : Reaches d₅ c.outPath :=
    (h.reaches₄ hb hd hext).of_directories halike.workingDir fun m _ hm => (halike.node? m).trans hm
  have hnode {dir : String} (hdir : dir ∈ artifactDirs)
      (hcleaned : d₂.node? (destination d.workingDir (c.outPath / dir)) = none ∨
        d₂.node? (destination d.workingDir (c.outPath / dir)) = some .directory) :=
    h.node?_artifactDir hb hext hdir hcleaned
  simp only [← halike.node?] at hnode
  have hne {dir : String} (hdir : dir ∈ artifactDirs) : destination d.workingDir (c.outPath / dir) ≠ [] :=
    destination_div_ne_nil (isStep_dir hdir) _ _
  obtain ⟨d', hremove⟩ := exists_removeStale (.inr ⟨_, hne hjobsDir,
    h.locate_artifactDir hjobsDir hwd₅ hreaches, hnode hjobsDir h.node?_jobs⟩)
  have hremoves := removes_removeStale hremove
  refine (exists_removeStale ?_).imp fun d₆ hgroups => clean_eq_ok_iff.2 ⟨d', hremove, hgroups⟩
  rcases locate_of_removed hremoves.workingDir hremoves.node? (c.outPath / "groups") with hl | hl
  · rw [h.locate_artifactDir hgroupsDir hwd₅ hreaches] at hl
    -- The way to the output directory is left, so no part of it has been removed, now or before.
    obtain ⟨-, -, -, hwalk⟩ := locate_eq_ok_iff.1 hl
    have hway := h.not_jobs_of_reaches hd₅ hwd₅ hreaches hremove
      (reaches_of_walk_div (isStep_dir hgroupsDir) hwalk)
    refine .inr ⟨_, hne hgroupsDir, hl, ?_⟩
    rcases hremoves.node? (destination d.workingDir (c.outPath / "groups")) with hsame | hnone
    · rw [hsame]
      exact hnode hgroupsDir (h.node?_groups hway)
    · exact .inl hnone
  · exact .inl hl

/-- After a build, the manifest can be saved again when the bundler has been asked again. -/
theorem exists_save_again {d₆ d₇ : Disk} (halike : Alike d₄ d₅)
    (h' : Bundles c bundler d₄ js es forceInlined d₅ d₆ d₇) :
    ∃ d₈, ((report c js).manifest.save c.manifestPath).run d₇ = (.ok (), d₈) := by
  have hmanifest : (Component.normal "manifest.json").IsStep := by decide
  have htemporary : (Component.normal "manifest.json.tmp").IsStep := by decide
  have hwd₄ : d₄.workingDir = d₃.workingDir := h.workingDir₄
  have hwd₇ : d₇.workingDir = d₄.workingDir := h'.workingDir₃ hb
  have hreaches : Reaches d₇ c.outPath := h'.reaches₃ hb hext
  have hsame {name : String} (hstep : (Component.normal name).IsStep)
      (hname : ∀ dir ∈ artifactDirs, name ≠ dir) :
      d₇.node? (destination d₄.workingDir (c.outPath / name)) =
        d₄.node? (destination d₄.workingDir (c.outPath / name)) := by
    rw [h'.node?_bundle hb hext fun dir hdir => not_prefix_of_ne hdir hstep (hname dir hdir) List.prefix_rfl]
    exact halike.node? _
  have hfile : d₇.isFile c.manifestPath := by
    obtain ⟨f, hf, -⟩ := (Manifest.of_run_save (l := []) h.save).1
    have hkept : d₇.node? (destination d₄.workingDir c.manifestPath) =
        d₄.node? (destination d₄.workingDir c.manifestPath) := hsame hmanifest (by decide)
    rw [← hwd₄, ← hkept, ← hwd₇] at hf
    exact isFile_iff.2 ⟨f, h.nodeAt_manifest hreaches hf⟩
  have hnone : d₇.node? (destination d₇.workingDir (c.manifestPath.withExtension "json.tmp")) = none := by
    rw [c.temporary_eq, hwd₇, hsame htemporary (by decide), ← c.temporary_eq, hwd₄]
    apply (Manifest.of_run_save h.save).2 List.prefix_rfl
    rw [c.temporary_eq]
    exact destination_div_ne_nil htemporary _ _
  have hlocate : d₇.locate (c.manifestPath.withExtension "json.tmp") =
      .ok (destination d₇.workingDir (c.manifestPath.withExtension "json.tmp")) := by
    have hfits := h.fits_manifest.1
    rw [c.temporary_eq] at hfits ⊢
    exact locate_div htemporary (by decide) hfits hreaches
  have hname : ending (c.manifestPath.withExtension "json.tmp") = .name := by
    rw [c.temporary_eq]
    exact ending_div htemporary c.outPath
  exact Manifest.exists_save hfile hlocate hname hnone

end Passes

/-! ## What a build reads -/

theorem discover_congr (hsources : Discovery.findSources c d' = Discovery.findSources c d)
    (h : ∀ ps, Discovery.findSources c d = .ok ps → ∀ p ∈ ps, d'.readText p = d.readText p) :
    discover c d' = discover c d := by
  have hread {ps : List Path} (hps : ∀ p ∈ ps, d'.readText p = d.readText p) :
      ps.mapM (Discovery.read d') = ps.mapM (Discovery.read d) := by
    induction ps with
    | nil => rfl
    | cons p ps ih =>
      have hp : Discovery.read d' p = Discovery.read d p := by
        rw [Discovery.read, Discovery.read, hps p List.mem_cons_self]
      rw [List.mapM_cons, List.mapM_cons, hp, ih fun q hq => hps q (List.mem_cons_of_mem p hq)]
  unfold discover
  rw [hsources]
  cases hfound : Discovery.findSources c d with
  | error e => rfl
  | ok ps => simp only [bind, Except.bind, hread (h ps hfound)]

/-- What a build reads lies apart from what it writes and removes. -/
structure ReadsApart (c : Config) (d : Disk) : Prop where
  sources : ∀ ps, Discovery.findSources c d = .ok ps → ∀ p ∈ ps, ∀ l ∈ way d.workingDir p,
    Avoids c d.workingDir l
  package : ∀ l ∈ way d.workingDir (c.root / Package.fileName), Avoids c d.workingDir l

namespace Passes

variable {d₁ d₂ d₃ d₄ d₅ : Disk} (h : Passes c bundler d js es forceInlined d₁ d₂ d₃ d₄)
  (hb : bundler.IsExact) (hd : d.WellFormed) (hext : '/' ∉ c.artifactExt.toList) (hr : ReadsApart c d)

include h hb hext hr

/-- The sources are what they were when a build is done that writes elsewhere. -/
theorem source_left {ps : List Path} (hps : Discovery.findSources c d = .ok ps) {p : Path} (hp : p ∈ ps) :
    d₄.isFile p ∧ d₄.readText p = d.readText p := by
  have hfile : d.isFile p := Discovery.isFile_of_mem_findSources hps hp
  have hwd : d₄.workingDir = d.workingDir := h.workingDir_eq hb
  have hsame : ∀ l ∈ way d.workingDir p, d₄.node? l = d.node? l := fun l hl =>
    h.node?_of_avoids_of_ne_none hb hext (hr.sources ps hps p hp l hl) (node?_ne_none_on_way hfile hl)
  refine ⟨?_, readText_congr hwd hsame⟩
  unfold isFile
  rw [nodeAt_congr hwd hsame]
  exact hfile

include hd in
/-- The next build finds the same sources exactly if all that it finds were files before. -/
theorem findSources_after_iff : Discovery.findSources c d₄ = Discovery.findSources c d ↔
    ∀ ps, Discovery.findSources c d₄ = .ok ps → ∀ p ∈ ps, d.isFile p := by
  obtain ⟨found, hfound, -, -⟩ := plan_eq_ok h.plan
  obtain ⟨ps, hps, -⟩ := Except.bind_eq_ok_iff.1 hfound
  rw [hps]
  exact Discovery.findSources_eq_iff hd (h.wellFormed₄ hb hd) hps fun p hp =>
    (h.source_left hb hext hr hps hp).1

theorem plan_again (hsources : Discovery.findSources c d₄ = Discovery.findSources c d) :
    Build.plan c d₄ = .ok (js, es) := by
  have hdiscover : discover c d₄ = discover c d :=
    discover_congr hsources fun ps hps p hp => (h.source_left hb hext hr hps hp).2
  rw [← h.plan]
  unfold Build.plan
  rw [hdiscover]

theorem dependencies_again (halike : Alike d₄ d₅) : Build.dependencies c.root d₅ = .ok forceInlined := by
  have hwd : d₅.workingDir = d₁.workingDir :=
    halike.workingDir.trans ((h.workingDir_eq hb).trans h.workingDir₁.symm)
  have hread : d₅.readText (c.root / Package.fileName) = d₁.readText (c.root / Package.fileName) := by
    apply readText_congr hwd
    intro l hl
    rw [h.workingDir₁] at hl
    rw [halike.node?, h.node?_of_avoids hb hext (hr.package l hl)]
  rw [← h.dependencies]
  unfold Build.dependencies
  dsimp only
  rw [hread]

end Passes

/-- The workspace after a build: the bundler has been asked, and the entries and the manifest are there. -/
structure Leaves (c : Config) (es : List EntryModule) (r : BundleRequest) (rep : BuildReport)
    (w w' : Workspace) : Prop where
  requests : w'.requests = w.requests ++ [r]
  entries : ∀ e ∈ es, w'.disk.readText e.path = .ok e.text
  manifest : w'.disk.readText rep.manifestPath = .ok rep.manifest.render

theorem Passes.leaves {d₁ d₂ d₃ d₄ : Disk} (h : Passes c bundler w.disk js es forceInlined d₁ d₂ d₃ d₄)
    (hb : bundler.IsExact) (hd : w.disk.WellFormed) (hext : '/' ∉ c.artifactExt.toList) :
    Leaves c es (request c es forceInlined) (report c js) w
      { w with disk := d₄, requests := w.requests ++ [request c es forceInlined] } := by
  refine ⟨rfl, fun e he => ?_, h.readText_manifest hb hd hext⟩
  obtain ⟨hfile, g, hg, hcontent⟩ := h.entry_left hb hd hext he
  obtain ⟨f, hf⟩ := isFile_iff.1 hfile
  rw [(nodeAt_eq_file_iff.1 hf).2.2] at hg
  cases hg
  exact readText_of_nodeAt hf hcontent

end Build

/-- Where a build reads nothing that it writes, the next build finds the same sources exactly if it finds
nothing that has become a file since. Then it plans the same, asks the bundler for the same, and, unless the
bundler fails, makes the same report, entries and manifest. -/
theorem rebuild_repeats_iff (hext : '/' ∉ c.artifactExt.toList) (hb : bundler.IsExact)
    (hd : w.disk.WellFormed) (hr : Build.ReadsApart c w.disk) {rep : BuildReport}
    (h : (build c bundler).run w = (.ok rep, w')) :
    (Discovery.findSources c w'.disk = Discovery.findSources c w.disk ↔
      ∀ ps, Discovery.findSources c w'.disk = .ok ps → ∀ p ∈ ps, w.disk.isFile p) ∧
    (Discovery.findSources c w'.disk = Discovery.findSources c w.disk →
      ∃ js es r, Build.plan c w.disk = .ok (js, es) ∧ Build.plan c w'.disk = .ok (js, es) ∧
        Build.Leaves c es r rep w w' ∧
        ((∃ e w'', (build c bundler).run w' = (.error (.bundle e), w'') ∧
            w''.requests = w'.requests ++ [r]) ∨
          ∃ w'', (build c bundler).run w' = (.ok rep, w'') ∧ Build.Leaves c es r rep w' w'')) := by
  obtain ⟨js, es, forceInlined, d₁, d₂, d₃, d₄, hpasses, rfl, rfl⟩ := run_build_eq_ok_iff.1 h
  refine ⟨hpasses.findSources_after_iff hb hd hext hr, fun hsources => ?_⟩
  have hd₄ : d₄.WellFormed := hpasses.wellFormed₄ hb hd
  have hplan := hpasses.plan_again hb hext hr hsources
  obtain ⟨d₅, hentries, halike⟩ :=
    Build.exists_writeEntries_again fun e he => hpasses.entry_left hb hd hext he
  have hgrows := Build.grows_writeEntries es d₄
  rw [hentries] at hgrows
  have hdependencies := hpasses.dependencies_again hb hext hr halike
  obtain ⟨d₆, hclean⟩ := hpasses.exists_clean_again hb hd hext halike (hgrows hd₄).1
  refine ⟨js, es, Build.request c es forceInlined, hpasses.plan, hplan, hpasses.leaves hb hd hext, ?_⟩
  rcases hbundle : (bundler (Build.request c es forceInlined)).run d₆ with ⟨e | ⟨⟩, d₇⟩
  · exact .inl ⟨e, _,
      Build.run_of_bundle_error (Build.run_prepare_of hplan hentries hdependencies hclean) hbundle, rfl⟩
  · right
    have hagain : Build.Bundles c bundler d₄ js es forceInlined d₅ d₆ d₇ :=
      ⟨hplan, hentries, hdependencies, hclean, hbundle⟩
    obtain ⟨d₈, hsave⟩ := hpasses.exists_save_again hb hext halike hagain
    have hpasses' : Build.Passes c bundler d₄ js es forceInlined d₅ d₆ d₇ d₈ := ⟨hagain, hsave⟩
    exact ⟨_, run_build_eq_ok_iff.2 ⟨js, es, forceInlined, d₅, d₆, d₇, d₈, hpasses', rfl, rfl⟩,
      hpasses'.leaves hb hd₄ hext⟩

/-- What the builds of the one job read lies apart from what they write. -/
theorem readsApart_oneJob {c : Config}
    (hfound : Discovery.findSources c (oneJob ["w"] ["w"]).disk = .ok [⟨"a.ts"⟩])
    (h : ∀ p ∈ [⟨"a.ts"⟩, c.root / Package.fileName], ∀ l ∈ way ["w"] p, Build.Avoids c ["w"] l) :
    Build.ReadsApart c (oneJob ["w"] ["w"]).disk := by
  constructor
  · intro ps hps p hp
    rw [hfound] at hps
    cases hps
    obtain rfl := List.mem_singleton.1 hp
    exact h _ List.mem_cons_self
  · exact h _ (by simp)

/-- A project whose pattern matches its source alone is built again with the same outcome. -/
theorem plainProject_rebuilds :
    let c : Config := { pattern := "a.ts" }
    let w := oneJob ["w"] ["w"]
    '/' ∉ c.artifactExt.toList ∧ Bundler.standIn.IsExact ∧ w.disk.WellFormed ∧ Build.ReadsApart c w.disk ∧
      ∃ es r rep w' w'', (build c .standIn).run w = (.ok rep, w') ∧
        (∀ ps, Discovery.findSources c w'.disk = .ok ps → ∀ p ∈ ps, w.disk.isFile p) ∧
        (build c .standIn).run w' = (.ok rep, w'') ∧ Build.Leaves c es r rep w w' ∧
        Build.Leaves c es r rep w' w'' := by
  intro c w
  have hext : '/' ∉ c.artifactExt.toList := by decide
  have hd : w.disk.WellFormed := by decide
  have hr : Build.ReadsApart c w.disk := readsApart_oneJob (by decide +kernel) (by decide)
  have hdecided : ((build c .standIn).run w).1.isOk ∧
      ((build c .standIn).run ((build c .standIn).run w).2).1.isOk ∧
      Discovery.findSources c ((build c .standIn).run w).2.disk = .ok [⟨"a.ts"⟩] := by
    decide +kernel
  obtain ⟨hfirst, hok, hfound⟩ := hdecided
  rcases hrun : (build c .standIn).run w with ⟨e | rep, w'⟩
  · rw [hrun] at hfirst
    cases hfirst
  · rw [hrun] at hfound hok
    obtain ⟨hsources, hrepeats⟩ := rebuild_repeats_iff hext Bundler.isExact_standIn hd hr hrun
    have hfiles : ∀ ps, Discovery.findSources c w'.disk = .ok ps → ∀ p ∈ ps, w.disk.isFile p := by
      intro ps hps p hp
      rw [hfound] at hps
      cases hps
      obtain rfl := List.mem_singleton.1 hp
      decide +kernel
    obtain ⟨js, es, r, -, -, hleaves, hagain⟩ := hrepeats (hsources.2 hfiles)
    rcases hagain with ⟨e, w'', hfailed, -⟩ | ⟨w'', hsecond, hleaves'⟩
    · rw [hfailed] at hok
      cases hok
    · exact ⟨hext, Bundler.isExact_standIn, hd, hr, es, r, rep, w', w'', rfl, hfiles, hsecond, hleaves,
        hleaves'⟩

theorem Build.run_of_plan_error {c : Config} {bundler : Bundler} {w : Workspace} {e : BuildError}
    (h : plan c w.disk = .error e) : (build c bundler).run w = (.error e, w) := by
  rw [build_eq_execute, run_bind, Workspace.Action.run_view, h]
  rfl

/-- The disk with one job after a build. -/
def builtOneJob : Disk :=
  let entry := "// generated by ej for A\n\n@job export class A \x7b\x7d\n\nexport default A;\n"
  let manifest :=
    "\x7b\n  \"A\": \x7b\n    \"mode\": \"single\",\n    \"artifactPath\": \"jobs/A.mjs\"\n  \x7d\n\x7d\n"
  let made : List (Location × Node) :=
    [(["dist"], .directory), (["dist", ".ej"], .directory), (["dist", ".ej", "entries"], .directory),
      (["dist", ".ej", "entries", "jobs"], .directory),
      (["dist", ".ej", "entries", "jobs", "A.entry.ts"], .file { content := .text entry }),
      (["dist", "jobs"], .directory),
      (["dist", "jobs", "A.mjs"], .file { content := .text "// bundled jobs/A\n" }),
      (["dist", "manifest.json"], .file { content := .text manifest })]
  made.foldl (fun d e => d.put ("w" :: e.1) e.2) (oneJob ["w"] ["w"]).disk

theorem entriesBelow_builtOneJob : builtOneJob.entriesBelow ⟨"."⟩ = [["a.ts"], ["dist"], ["dist", ".ej"],
    ["dist", ".ej", "entries"], ["dist", ".ej", "entries", "jobs"],
    ["dist", ".ej", "entries", "jobs", "A.entry.ts"], ["dist", "jobs"], ["dist", "jobs", "A.mjs"],
    ["dist", "manifest.json"]] := by
  apply entriesBelow_eq
  all_goals decide +kernel

theorem findSources_builtOneJob : Discovery.findSources { pattern := "**/*.ts" } builtOneJob =
    .ok [⟨"a.ts"⟩, ⟨"dist/.ej/entries/jobs/A.entry.ts"⟩] := by
  have hcomponents : Glob.components "./**/*.ts" =
      .ok [.literal ".", .directories, .wild [.anyText, .char '.', .char 't', .char 's']] := by
    decide +kernel
  have hentry : Glob.hasEntry builtOneJob ⟨"."⟩ "." := by decide +kernel
  have hdot : Glob.entry ⟨"."⟩ "." = ⟨"."⟩ := by decide
  have hsearch : (Glob.search builtOneJob [.literal ".", .directories,
      .wild [.anyText, .char '.', .char 't', .char 's']] ⟨"."⟩).filter builtOneJob.isFile =
      [⟨"a.ts"⟩, ⟨"dist/.ej/entries/jobs/A.entry.ts"⟩] := by
    rw [Glob.search, if_pos hentry, hdot, Glob.search_directories, entriesBelow_builtOneJob]
    decide +kernel
  have hfiles : Glob.files builtOneJob "./**/*.ts" =
      .ok [⟨"a.ts"⟩, ⟨"dist/.ej/entries/jobs/A.entry.ts"⟩] := by
    unfold Glob.files
    rw [hcomponents]
    exact congrArg Except.ok hsearch
  have hpattern : Discovery.pattern { pattern := "**/*.ts" } = "./**/*.ts" := by decide +kernel
  unfold Discovery.findSources
  rw [hpattern, hfiles]
  dsimp only
  rw [List.mergeSort_of_pairwise]
  decide

/-- A build of the disk after a build takes the entry for a source, and fails. -/
theorem isOk_build_builtOneJob {bundler : Bundler} {w : Workspace} (h : w.disk = builtOneJob) :
    ((build { pattern := "**/*.ts" } bundler).run w).1.isOk = false := by
  have hplan : (Build.plan { pattern := "**/*.ts" } builtOneJob).isOk = false := by
    unfold Build.plan discover
    rw [findSources_builtOneJob]
    decide +kernel
  rw [← h] at hplan
  cases he : Build.plan { pattern := "**/*.ts" } w.disk with
  | ok x =>
    rw [he] at hplan
    cases hplan
  | error e =>
    rw [Build.run_of_plan_error he]
    rfl

theorem build_oneJob_builds : ((build { pattern := "**/*.ts" } .standIn).run (oneJob ["w"] ["w"])).1.isOk ∧
    ((build { pattern := "**/*.ts" } .standIn).run (oneJob ["w"] ["w"])).2.disk = builtOneJob := by
  decide +kernel

theorem rebuild_finds_entries :
    let c : Config := { pattern := "**/*.ts" }
    let w := oneJob ["w"] ["w"]
    Bundler.standIn.IsExact ∧ w.disk.WellFormed ∧ Build.ReadsApart c w.disk ∧
      Discovery.findSources c w.disk = .ok [⟨"a.ts"⟩] ∧
      ∃ rep w', (build c .standIn).run w = (.ok rep, w') ∧
        Discovery.findSources c w'.disk = .ok [⟨"a.ts"⟩, ⟨"dist/.ej/entries/jobs/A.entry.ts"⟩] ∧
        ((build c .standIn).run w').1.isOk = false := by
  intro c w
  have hfound : Discovery.findSources c w.disk = .ok [⟨"a.ts"⟩] := by decide +kernel
  refine ⟨Bundler.isExact_standIn, by decide, readsApart_oneJob hfound (by decide), hfound, ?_⟩
  obtain ⟨hok, hdisk⟩ := build_oneJob_builds
  rcases hrun : (build c .standIn).run w with ⟨e | rep, w'⟩
  · rw [hrun] at hok
    cases hok
  · rw [hrun] at hdisk
    refine ⟨rep, w', rfl, ?_, isOk_build_builtOneJob hdisk⟩
    exact hdisk ▸ findSources_builtOneJob

end JobBundler
