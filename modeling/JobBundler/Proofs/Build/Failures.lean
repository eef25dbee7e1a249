import JobBundler.Proofs.Build.Sources
import JobBundler.Proofs.Build.Steps
import JobBundler.Proofs.Disk.Directories

/-!
# Builds that fail

What is known of the disk at each stage of a build (`Build.Sound`) is kept by each of its steps, whatever fails.
A build that stops before it asks the bundler leaves the artifacts and the manifest of the last one as they
are, but for what it has removed of the artifacts when it cannot remove the rest (`build_outcome`). The
manifest is written when the bundler is done, and at no other time.
-/

namespace JobBundler

open Disk

variable {c : Config} {bundler : Bundler} {d d' d₁ d₂ : Disk} {w w₁ w₂ : Workspace} {wd l : Location}
  {js : List Job} {es ws : List EntryModule} {forceInlined dirs : List String}

namespace Build

/-- The node at the location is as before, but that a directory may have been made there when the way to
the output directory leads through it. -/
def Untouched (c : Config) (d d' : Disk) (l : Location) : Prop :=
  MakesOn (l ∈ way d.workingDir c.outPath) (d.node? l) (d'.node? l)

/-- The location is in a directory of artifacts, or that of the manifest. -/
def IsOutput (c : Config) (wd l : Location) : Prop :=
  (∃ dir ∈ artifactDirs, destination wd (c.outPath / dir) <+: l) ∨ l = destination wd c.manifestPath

/-- What a build has done to the artifacts and the manifest when it stops with an error before it asks the
bundler. Some or all of the artifacts may be gone when those of jobs or of groups cannot be removed; those of
jobs are removed first. -/
structure Stopped (c : Config) (e : BuildError) (d d' : Disk) : Prop where
  manifest : Untouched c d d' (destination d.workingDir c.manifestPath)
  jobs (l : Location) : destination d.workingDir (c.outPath / "jobs") <+: l → Untouched c d d' l ∨
    d'.node? l = none ∧ ∃ dir ∈ artifactDirs, ∃ cause, e = .file .remove (c.outPath / dir) cause
  groups (l : Location) : destination d.workingDir (c.outPath / "groups") <+: l → Untouched c d d' l ∨
    d'.node? l = none ∧ ∃ cause, e = .file .remove (c.outPath / "groups") cause

/-- These entries are written, with nothing done to the artifacts and the manifest. -/
structure Written (c : Config) (d : Disk) (es : List EntryModule) (d' : Disk) : Prop where
  workingDir : d'.workingDir = d.workingDir
  outputs (l : Location) : IsOutput c d.workingDir l → Untouched c d d' l
  entries : ∀ e ∈ es, Holds (.text e.text) (d'.node? (destination d.workingDir e.path))

/-- The entries are written, and the old artifacts are removed but for those in `dirs`, some of which may be
gone from the first of these directories. -/
structure Cleans (c : Config) (d : Disk) (es : List EntryModule) (dirs : List String) (d' : Disk) :
    Prop where
  workingDir : d'.workingDir = d.workingDir
  manifest : Untouched c d d' (destination d.workingDir c.manifestPath)
  entries : ∀ e ∈ es, Holds (.text e.text) (d'.node? (destination d.workingDir e.path))
  suffix : dirs <:+ artifactDirs
  artifacts {dir : String} (hdir : dir ∈ artifactDirs) (l : Location) :
    destination d.workingDir (c.outPath / dir) <+: l →
      Untouched c d d' l ∨ d'.node? l = none ∧ dir ∉ dirs.tail
  removed : ∀ dir ∈ artifactDirs, dir ∉ dirs → d'.nodeAt (c.outPath / dir) = .error .notFound

/-- Everything that can be checked before the bundler is asked has been, the entries are written, the package
description has been read after that, and the old artifacts are removed. -/
structure IsPrepared (c : Config) (d : Disk) (js : List Job) (es : List EntryModule)
    (forceInlined : List String) (d' : Disk) : Prop where
  config : c.validate = .ok ()
  plan : ∃ found, discover c d = .ok found ∧ validate c.mode c.root found.candidates = .ok js ∧
    planEntries c found.files js = .ok es
  package : ∃ d₁, Written c d es d₁ ∧ dependencies c.root d₁ = .ok forceInlined
  workingDir : d'.workingDir = d.workingDir
  manifest : Untouched c d d' (destination d.workingDir c.manifestPath)
  entries : ∀ e ∈ es, Holds (.text e.text) (d'.node? (destination d.workingDir e.path))
  removed : ∀ dir ∈ artifactDirs, d'.nodeAt (c.outPath / dir) = .error .notFound

/-- How a build ends that has asked the bundler, with the disk `d` that it has prepared. -/
inductive Finishes (c : Config) (bundler : Bundler) (js : List Job) (r : BundleRequest) (w : Workspace)
    (d : Disk) : Except BuildError BuildReport × Workspace → Prop
  | bundlerFails {e : BundleError} {d₁ : Disk} (h : (bundler r).run d = (.error e, d₁)) :
    Finishes c bundler js r w d
      (.error (.bundle e), { w with disk := d₁, requests := w.requests ++ [r] })
  | manifestFails {e : ManifestError} {d₁ d₂ : Disk} (h : (bundler r).run d = (.ok (), d₁))
    (hm : Untouched c d₁ d₂ (destination d₁.workingDir c.manifestPath)) :
    Finishes c bundler js r w d
      (.error (.manifest e), { w with disk := d₂, requests := w.requests ++ [r] })
  | succeeds {d₁ d₂ : Disk} (h : (bundler r).run d = (.ok (), d₁))
    (hm : Holds (.text (report c js).manifest.render)
      (d₂.node? (destination d₁.workingDir c.manifestPath))) :
    Finishes c bundler js r w d
      (.ok (report c js), { w with disk := d₂, requests := w.requests ++ [r] })

/-- How a build ends that has begun with the workspace `w`. -/
inductive Ends (c : Config) (bundler : Bundler) (w : Workspace) :
    Except BuildError BuildReport × Workspace → Prop
  /-- The bundler has not been asked. -/
  | stops {e : BuildError} {d : Disk} (h : Stopped c e w.disk d) :
    Ends c bundler w (.error e, { w with disk := d })
  /-- The bundler has been asked once. -/
  | finishes {js : List Job} {es : List EntryModule} {forceInlined : List String} {d : Disk}
    {x : Except BuildError BuildReport × Workspace} (hprepared : IsPrepared c w.disk js es forceInlined d)
    (h : Finishes c bundler js (request c es forceInlined) w d x) : Ends c bundler w x

/-! ## Writing the entries -/

theorem isStep_entries {n : String} (h : n ∈ [".ej", "entries"]) : (Path.Component.normal n).IsStep := by
  simp only [List.mem_cons, List.not_mem_nil, or_false] at h
  rcases h with rfl | rfl <;> decide

/-- The way to an entry leads through the output directory and that of the entries. -/
theorem mem_way_entry {files : List SourceFile} {js : List Job} {es : List EntryModule}
    (hes : planEntries c files js = .ok es) {e : EntryModule} (he : e ∈ es)
    (hl : l ∈ way wd e.path) : l ∈ way wd c.outPath ∨ destination wd (c.outPath / ".ej") <+: l := by
  obtain ⟨dir, hdir, name, hname, -, hpath⟩ := exists_of_mem_planEntries hes he
  have hej : (Path.Component.normal ".ej").IsStep := isStep_entries (by decide)
  have hentries : (Path.Component.normal "entries").IsStep := isStep_entries (by decide)
  have hdir := isStep_dir hdir
  have hfile := isStep_entryFile hname
  rw [hpath, Config.scratchDir, mem_way_div hfile, mem_way_div hdir, mem_way_div hentries,
    mem_way_div hej] at hl
  rcases hl with (((hl | hl) | hl) | hl) | hl
  · exact .inl hl
  · rw [hl]
    exact .inr List.prefix_rfl
  · rw [hl, destination_div hentries]
    exact .inr (List.prefix_append _ _)
  · rw [hl, destination_div hdir, destination_div hentries]
    simp only [List.append_assoc, List.prefix_append, or_true]
  · rw [hl, destination_div hfile, destination_div hdir, destination_div hentries]
    simp only [List.append_assoc, List.prefix_append, or_true]

/-- The location of an entry, and the way there, which leads through the directory of the entries. -/
theorem way_of_mem_planEntries {files : List SourceFile} {js : List Job} {es : List EntryModule}
    (hes : planEntries c files js = .ok es) {e : EntryModule} (he : e ∈ es) :
    destination wd (c.outPath / ".ej") <+: destination wd e.path ∧
      ∀ p, e.path.parent? = some p → p.text ≠ "" → l ∈ way wd p →
        l ∈ way wd c.outPath ∨ destination wd (c.outPath / ".ej") <+: l := by
  obtain ⟨dir, hdir, name, hname, -, hpath⟩ := exists_of_mem_planEntries hes he
  have hentries : (Path.Component.normal "entries").IsStep := isStep_entries (by decide)
  have hfile := isStep_entryFile hname
  constructor
  · rw [hpath, Config.scratchDir, destination_div hfile, destination_div (isStep_dir hdir),
      destination_div hentries]
    simp only [List.append_assoc, List.prefix_append]
  · intro p hp hne hl
    refine mem_way_entry hes he ?_
    rw [hpath] at hp ⊢
    exact (mem_way_div hfile).2 (.inl (way_parent?_div hfile hp hne hl))

/-- A directory that is made for an entry is on the way to the output directory, or below that of the
entries. -/
theorem at_makeDir_entry {files : List SourceFile} (hes : planEntries c files js = .ok es)
    {e : EntryModule} (he : e ∈ es) {parent p : Path} (hparent : e.path.parent? = some parent)
    (hp : p ∈ ancestors parent) (hne : p.text ≠ "") (hl : ¬destination wd (c.outPath / ".ej") <+: l)
    (h : makeDir p d = .ok d') : At wd l (MakesOn (l ∈ way wd c.outPath)) d d' := by
  refine at_makeDir_on hp hne (fun hempty hmem => ?_) h
  exact ((way_of_mem_planEntries hes he).2 parent hparent hempty hmem).resolve_right hl

/-- Entries are written below a directory of their own. -/
theorem at_write_entry {files : List SourceFile} (hes : planEntries c files js = .ok es)
    {e : EntryModule} (he : e ∈ es) {content : Content} (hl : ¬destination wd (c.outPath / ".ej") <+: l)
    (h : Disk.write e.path content d = .ok d') : At wd l (MakesOn (l ∈ way wd c.outPath)) d d' := by
  refine at_write_of_ne MakesOn.isFrame ?_ h
  rintro rfl
  exact hl (way_of_mem_planEntries hes he (l := [])).1

theorem keeps_writeEntries_on {files : List SourceFile} (hes : planEntries c files js = .ok es)
    (hl : ¬destination wd (c.outPath / ".ej") <+: l) :
    Keeps (At wd l (MakesOn (l ∈ way wd c.outPath))) (writeEntries es) := by
  have hR : IsFrame (At wd l (MakesOn (l ∈ way wd c.outPath))) := At.isFrame MakesOn.isFrame
  refine keeps_writeEntries_of hR fun e he => keeps_writeEntry_of hR (fun parent hparent => ?_) ?_
  · exact keeps_makeDirsUpTo_of hR fun p hp hne _ _ => at_makeDir_entry hes he hparent hp hne hl
  · exact fun _ _ => at_write_entry hes he hl

/-- What is not below a directory of artifacts is not removed with it. -/
theorem not_prefix_of_ne {n : String} {dir : String} (hdir : dir ∈ artifactDirs)
    (hn : (Path.Component.normal n).IsStep) (hne : n ≠ dir) (hl : destination wd (c.outPath / n) <+: l) :
    ¬destination wd (c.outPath / dir) <+: l := by
  rw [destination_div hn] at hl
  rw [destination_div (isStep_dir hdir)]
  exact not_prefix_sibling hne hl

/-- What is below the directory of the entries is not an artifact. -/
theorem not_artifact_of_entries {dir : String} (hdir : dir ∈ artifactDirs)
    (hl : destination wd (c.outPath / ".ej") <+: l) : ¬destination wd (c.outPath / dir) <+: l := by
  have hej : (Path.Component.normal ".ej").IsStep := isStep_entries (by decide)
  have hne : ".ej" ≠ dir := (ne_of_mem_of_not_mem hdir (by decide)).symm
  exact not_prefix_of_ne hdir hej hne hl

theorem IsOutput.not_entry (h : IsOutput c wd l) : ¬destination wd (c.outPath / ".ej") <+: l := by
  intro hentry
  rcases h with ⟨dir, hdir, hl⟩ | rfl
  · exact not_artifact_of_entries hdir hentry hl
  · have hej : (Path.Component.normal ".ej").IsStep := isStep_entries (by decide)
    have hmanifest : (Path.Component.normal "manifest.json").IsStep := by decide
    have hne : "manifest.json" ≠ ".ej" := by decide
    rw [Config.manifestPath, destination_div hmanifest, destination_div hej] at hentry
    exact not_prefix_sibling hne List.prefix_rfl hentry

theorem validate_of_plan (h : plan c d = .ok (js, es)) : c.validate = .ok () := by
  unfold plan at h
  obtain ⟨_, hv, -⟩ := Except.bind_eq_ok_iff.1 h
  exact mapError_eq_ok_iff.1 hv

/-- The entries are written with everything else left alone. -/
theorem untouched_of_writeEntries {r : Except BuildError Unit} (hplan : plan c d = .ok (js, es))
    (h : (writeEntries es).run d = (r, d')) :
    d'.workingDir = d.workingDir ∧ ∀ l, IsOutput c d.workingDir l → Untouched c d d' l := by
  obtain ⟨found, -, -, hes⟩ := plan_eq_ok hplan
  have hkeeps (l : Location) (hl : IsOutput c d.workingDir l) :
      At d.workingDir l (MakesOn (l ∈ way d.workingDir c.outPath)) d d' := by
    have hk := keeps_writeEntries_on hes hl.not_entry d
    rwa [h] at hk
  constructor
  · exact (hkeeps _ (.inr rfl) rfl).1
  · intro l hl
    exact (hkeeps l hl rfl).2

theorem Untouched.refl (c : Config) (d : Disk) (l : Location) : Untouched c d d l :=
  MakesOn.isFrame.refl _

theorem Stopped.of_untouched {e : BuildError}
    (h : ∀ l, IsOutput c d.workingDir l → Untouched c d d' l) : Stopped c e d d' := by
  constructor
  · exact h _ (.inr rfl)
  · exact fun l hl => .inl (h l (.inl ⟨"jobs", by decide, hl⟩))
  · exact fun l hl => .inl (h l (.inl ⟨"groups", by decide, hl⟩))

namespace Written

theorem refl (c : Config) (d : Disk) : Written c d [] d :=
  ⟨rfl, fun l _ => .refl c d l, by simp⟩

/-- What changes no node but below the directory of the entries, and no entry that is written. -/
theorem step (h : Written c d ws d₁)
    (houtputs : ∀ l, ¬destination d.workingDir (c.outPath / ".ej") <+: l →
      At d.workingDir l (MakesOn (l ∈ way d.workingDir c.outPath)) d₁ d₂)
    (hentries : ∀ e ∈ ws, At d.workingDir (destination d.workingDir e.path) (Retains (.text e.text)) d₁ d₂) :
    Written c d ws d₂ := by
  have hmanifest : IsOutput c d.workingDir (destination d.workingDir c.manifestPath) := .inr rfl
  refine ⟨(houtputs _ hmanifest.not_entry h.workingDir).1, fun l hl => ?_, fun e he => ?_⟩
  · exact MakesOn.isFrame.trans (h.outputs l hl) (houtputs l hl.not_entry h.workingDir).2
  · exact (hentries e he h.workingDir).2 (h.entries e he)

section
variable {files : List SourceFile} (hes : planEntries c files js = .ok es)
include hes

theorem makeDir (h : Written c d ws d₁) {e : EntryModule} (he : e ∈ es) {parent p : Path}
    (hparent : e.path.parent? = some parent) (hp : p ∈ ancestors parent) (hne : p.text ≠ "")
    (hmade : Disk.makeDir p d₁ = .ok d₂) : Written c d ws d₂ :=
  h.step (fun _ hl => at_makeDir_entry hes he hparent hp hne hl hmade)
    fun _ _ => (at_makeDir hmade).mono fun _ _ => Makes.retains

/-- An entry that is not written yet is in another place than those that are. -/
theorem fill (h : Written c d ws d₁) (hws : ws ⊆ es) {e : EntryModule} (he : e ∈ es) (hw : e ∉ ws)
    {content : Content} (hwrite : Disk.write e.path content d₁ = .ok d₂) : Written c d ws d₂ := by
  refine h.step (fun _ hl => at_write_entry hes he hl hwrite) fun e' he' => ?_
  refine at_write_of_ne Retains.isFrame (fun heq => hw ?_) hwrite
  rwa [eq_of_place_eq hes he (hws he') (List.reverse_inj.1 heq)]

theorem write (h : Written c d ws d₁) (hws : ws ⊆ es) {e : EntryModule} (he : e ∈ es)
    (hwrite : Disk.write e.path (.text e.text) d₁ = .ok d₂) : Written c d (e :: ws) d₂ := by
  have hkept : Written c d ws d₂ := by
    refine h.step (fun _ hl => at_write_entry hes he hl hwrite) fun e' he' => at_write (fun heq => ?_) hwrite
    rw [eq_of_place_eq hes he (hws he') (List.reverse_inj.1 heq)]
  refine ⟨hkept.workingDir, hkept.outputs, fun e' he' => ?_⟩
  rcases List.mem_cons.1 he' with rfl | he'
  · rw [← h.workingDir]
    exact (holds_of_write hwrite).2
  · exact hkept.entries e' he'

end
end Written

/-! ## Removing the old artifacts -/

theorem not_artifact_of_manifest {dir : String} (hdir : dir ∈ artifactDirs) :
    ¬destination wd (c.outPath / dir) <+: destination wd c.manifestPath := by
  have hmanifest : (Path.Component.normal "manifest.json").IsStep := by decide
  have hne : "manifest.json" ≠ dir := (ne_of_mem_of_not_mem hdir (by decide)).symm
  exact not_prefix_of_ne hdir hmanifest hne List.prefix_rfl

theorem not_artifact_of_entry {files : List SourceFile} (hes : planEntries c files js = .ok es)
    {e : EntryModule} (he : e ∈ es) {dir : String} (hdir : dir ∈ artifactDirs) :
    ¬destination wd (c.outPath / dir) <+: destination wd e.path :=
  not_artifact_of_entries hdir (way_of_mem_planEntries hes he (l := [])).1

namespace Cleans

theorem of_written (h : Written c d es d₁) : Cleans c d es artifactDirs d₁ where
  workingDir := h.workingDir
  manifest := h.outputs _ (.inr rfl)
  entries := h.entries
  suffix := List.suffix_rfl
  artifacts {dir} hdir l hl := .inl (h.outputs l (.inl ⟨dir, hdir, hl⟩))
  removed _ hdir hnot := absurd hdir hnot

theorem unlink {dir : String} {m : Location} (h : Cleans c d es (dir :: dirs) d₁)
    {files : List SourceFile} (hes : planEntries c files js = .ok es)
    (hm : destination d₁.workingDir (c.outPath / dir) <+: m) (hunlink : Disk.unlink m d₁ = .ok d₂) :
    Cleans c d es (dir :: dirs) d₂ := by
  have hremoves : Removes (c.outPath / dir) d₁ d₂ := .single hm hunlink
  have hdir : dir ∈ artifactDirs := h.suffix.subset List.mem_cons_self
  have hsame {l : Location} (hl : ¬destination d.workingDir (c.outPath / dir) <+: l) :
      d₂.node? l = d₁.node? l :=
    (hremoves.at_of_not_below Unchanged.isFrame hl h.workingDir).2
  constructor
  case workingDir => exact hremoves.workingDir.trans h.workingDir
  case manifest =>
    rw [Untouched, hsame (not_artifact_of_manifest hdir)]
    exact h.manifest
  case entries =>
    intro e he
    rw [hsame (not_artifact_of_entry hes he hdir)]
    exact h.entries e he
  case suffix => exact h.suffix
  case artifacts =>
    intro dir' hdir' l hl
    by_cases hne : dir' = dir
    · subst hne
      have hnot : dir' ∉ dirs := (List.nodup_cons.1 (h.suffix.sublist.nodup (by decide))).1
      rcases hremoves.node? l with hnode | hnode
      · rw [Untouched, hnode]
        exact h.artifacts hdir' l hl
      · exact .inr ⟨hnode, hnot⟩
    · rw [Untouched, hsame (not_prefix_of_ne hdir (isStep_dir hdir') hne hl)]
      exact h.artifacts hdir' l hl
  case removed =>
    intro dir' hdir' hnot
    exact nodeAt_of_removed hremoves.workingDir hremoves.node? (h.removed dir' hdir' hnot)

theorem next {dir : String} (h : Cleans c d es (dir :: dirs) d₁)
    (hremoved : d₁.nodeAt (c.outPath / dir) = .error .notFound) : Cleans c d es dirs d₁ where
  workingDir := h.workingDir
  manifest := h.manifest
  entries := h.entries
  suffix := (List.suffix_cons dir dirs).trans h.suffix
  artifacts hdir l hl := (h.artifacts hdir l hl).imp_right fun ⟨hnone, hnot⟩ =>
    ⟨hnone, fun hmem => hnot (List.mem_of_mem_tail hmem)⟩
  removed dir' hdir' hnot := by
    by_cases hne : dir' = dir
    · exact hne ▸ hremoved
    · exact h.removed dir' hdir' fun hmem => hnot ((List.mem_cons.1 hmem).resolve_left hne)

theorem stopped {dir : String} (h : Cleans c d es (dir :: dirs) d₁) (cause : FileError) :
    Stopped c (.file .remove (c.outPath / dir) cause) d d₁ := by
  have hdir : dir ∈ artifactDirs := h.suffix.subset List.mem_cons_self
  constructor
  · exact h.manifest
  · intro l hl
    exact (h.artifacts (by decide) l hl).imp_right fun hgone => ⟨hgone.1, dir, hdir, cause, rfl⟩
  · intro l hl
    refine (h.artifacts (by decide) l hl).imp_right ?_
    rintro ⟨hnone, hnot⟩
    refine ⟨hnone, cause, ?_⟩
    -- The artifacts of groups are the last ones.
    rcases List.suffix_cons_iff.1 h.suffix with heq | hsuffix
    · rw [List.tail_cons, (List.cons.inj heq).2] at hnot
      exact absurd List.mem_cons_self hnot
    · rcases List.suffix_cons_iff.1 hsuffix with heq | hsuffix
      · rw [(List.cons.inj heq).1]
      · cases List.suffix_nil.1 hsuffix

theorem isPrepared (h : Cleans c d es [] d₁) (hplan : plan c d = .ok (js, es)) (hread : Written c d es d₂)
    (hpackage : dependencies c.root d₂ = .ok forceInlined) : IsPrepared c d js es forceInlined d₁ where
  config := validate_of_plan hplan
  plan := plan_eq_ok hplan
  package := ⟨d₂, hread, hpackage⟩
  workingDir := h.workingDir
  manifest := h.manifest
  entries := h.entries
  removed dir hdir := h.removed dir hdir List.not_mem_nil

end Cleans

/-! ## Saving the manifest -/

/-- A manifest that cannot be saved is as it was. -/
theorem untouched_of_leads {made : Bool} {e : FileError}
    (h : (replacement c js).Leads (.preparing, d) (.done made (.error e), d')) :
    Untouched c d d' (destination d.workingDir c.manifestPath) := by
  have hmanifest : (Path.Component.normal "manifest.json").IsStep := by decide
  refine (h.at_of_not_below (by simp) (c.temporary_not_prefix _) ?_ rfl).2
  rintro ⟨parent, q, hparent, hq, hne, heq⟩
  obtain ⟨hempty, hway⟩ : parent.text ≠ "" ∧ destination d.workingDir q ∈ way d.workingDir parent :=
    mem_way_of_mem_ancestors hq hne
  exact way_parent?_div hmanifest hparent hempty (heq ▸ hway)

theorem holds_of_leads {made : Bool}
    (h : (replacement c js).Leads (.preparing, d) (.done made (.ok ()), d')) :
    Holds (.text (report c js).manifest.render) (d'.node? (destination d.workingDir c.manifestPath)) := by
  have hholds := h.fills
  rw [Replacement.Fills, Replacement.targetAt, h.workingDir] at hholds
  exact hholds

/-! ## What is known at each stage -/

/-- What is known of a build at each stage, when it has begun with the workspace `w`. -/
inductive Sound (c : Config) (bundler : Bundler) (w : Workspace) : Stage → Workspace → Prop
  | planning : Sound c bundler w .planning w
  | writing {js : List Job} {es ws : List EntryModule} {d : Disk} (hplan : plan c w.disk = .ok (js, es))
    (hws : ws ⊆ es) (h : Written c w.disk ws d) :
    Sound c bundler w (.writing js es ws) { w with disk := d }
  | reading {js : List Job} {es : List EntryModule} {d : Disk} (hplan : plan c w.disk = .ok (js, es))
    (h : Written c w.disk es d) : Sound c bundler w (.reading js es) { w with disk := d }
  | cleaning {js : List Job} {es : List EntryModule} {forceInlined dirs : List String} {d d₁ : Disk}
    (hplan : plan c w.disk = .ok (js, es)) (hread : Written c w.disk es d₁)
    (hpackage : dependencies c.root d₁ = .ok forceInlined) (h : Cleans c w.disk es dirs d) :
    Sound c bundler w (.cleaning js es forceInlined dirs) { w with disk := d }
  | saving {js : List Job} {es : List EntryModule} {forceInlined : List String} {s : Replacement.Stage}
    {d d₁ d₂ : Disk} (hprepared : IsPrepared c w.disk js es forceInlined d)
    (hbundle : (bundler (request c es forceInlined)).run d = (.ok (), d₁))
    (h : (replacement c js).Leads (.preparing, d₁) (s, d₂)) :
    Sound c bundler w (.saving js s)
      { w with disk := d₂, requests := w.requests ++ [request c es forceInlined] }
  | done {result : Except BuildError BuildReport} {w' : Workspace} (h : Ends c bundler w (result, w')) :
    Sound c bundler w (.done result) w'

theorem Advances.sound {s s' : Stage} (h : Advances c bundler s w₁ s' w₂) (hs : Sound c bundler w s w₁) :
    Sound c bundler w s' w₂ := by
  cases h with
  | plan hplan =>
    cases hs
    exact .writing hplan (List.nil_subset _) (.refl c w.disk)
  | notPlanned =>
    cases hs
    exact .done (.stops (.of_untouched fun l _ => .refl c w.disk l))
  | makeDir he hparent hp hne hmade =>
    cases hs with
    | writing hplan hws hwritten =>
      obtain ⟨found, -, -, hes⟩ := plan_eq_ok hplan
      exact .writing hplan hws (hwritten.makeDir hes he hparent hp hne hmade)
  | fill he hw size hwrite =>
    cases hs with
    | writing hplan hws hwritten =>
      obtain ⟨found, -, -, hes⟩ := plan_eq_ok hplan
      exact .writing hplan hws (hwritten.fill hes hws he hw hwrite)
  | write he hwrite =>
    cases hs with
    | writing hplan hws hwritten =>
      obtain ⟨found, -, -, hes⟩ := plan_eq_ok hplan
      exact .writing hplan (List.cons_subset.2 ⟨he, hws⟩) (hwritten.write hes hws he hwrite)
  | notWritten =>
    cases hs with
    | writing hplan hws hwritten => exact .done (.stops (.of_untouched hwritten.outputs))
  | written hall =>
    cases hs with
    | writing hplan hws hwritten =>
      exact .reading hplan { hwritten with entries := fun e he => hwritten.entries e (hall he) }
  | read hpackage =>
    cases hs with
    | reading hplan hwritten => exact .cleaning hplan hwritten hpackage (.of_written hwritten)
  | notRead =>
    cases hs with
    | reading hplan hwritten => exact .done (.stops (.of_untouched hwritten.outputs))
  | unlink hm hunlink =>
    cases hs with
    | cleaning hplan hread hpackage hcleans =>
      obtain ⟨found, -, -, hes⟩ := plan_eq_ok hplan
      exact .cleaning hplan hread hpackage (hcleans.unlink hes hm hunlink)
  | removed hremoved =>
    cases hs with
    | cleaning hplan hread hpackage hcleans =>
      exact .cleaning hplan hread hpackage (hcleans.next hremoved)
  | notRemoved _ _ _ _ _ dir cause =>
    cases hs with
    | cleaning hplan hread hpackage hcleans => exact .done (.stops (hcleans.stopped cause))
  | bundle hbundle =>
    cases hs with
    | cleaning hplan hread hpackage hcleans =>
      exact .saving (hcleans.isPrepared hplan hread hpackage) hbundle .refl
  | notBundled hbundle =>
    cases hs with
    | cleaning hplan hread hpackage hcleans =>
      exact .done (.finishes (hcleans.isPrepared hplan hread hpackage) (.bundlerFails hbundle))
  | save hsave =>
    cases hs with
    | saving hprepared hbundle hleads => exact .saving hprepared hbundle (hleads.step hsave)
  | saved =>
    cases hs with
    | saving hprepared hbundle hleads =>
      exact .done (.finishes hprepared (.succeeds hbundle (holds_of_leads hleads)))
  | notSaved =>
    cases hs with
    | saving hprepared hbundle hleads =>
      exact .done (.finishes hprepared (.manifestFails hbundle (untouched_of_leads hleads)))

theorem Leads.sound {s : Stage} (h : Leads c bundler (.planning, w) (s, w₁)) : Sound c bundler w s w₁ := by
  suffices ∀ x, Leads c bundler (.planning, w) x → Sound c bundler w x.1 x.2 from this _ h
  intro x hx
  induction hx with
  | refl => exact .planning
  | tail _ hstep ih => exact hstep.sound ih

/-- A build that gets as far as to remove the old artifacts may stop when one of them is removed. -/
theorem exists_leads_notRemoved {m : Location} {f : File} (bundler : Bundler) (cause : FileError)
    (hplan : plan c w.disk = .ok (js, es)) (hwrite : (writeEntries es).run w.disk = (.ok (), d₁))
    (hpackage : dependencies c.root d₁ = .ok forceInlined)
    (hm : destination w.disk.workingDir (c.outPath / "jobs") <+: m)
    (hf : w.disk.node? m = some (.file f)) :
    ∃ d, Leads c bundler (.planning, w)
        (.done (.error (.file .remove (c.outPath / "jobs") cause)), { w with disk := d }) ∧
      d.node? m = none ∧ ∀ l, IsOutput c w.disk.workingDir l → ¬m <+: l → Untouched c w.disk d l := by
  obtain ⟨hwd, houtputs⟩ := untouched_of_writeEntries hplan hwrite
  have hleft : d₁.node? m = some (.file f) := by
    rw [← hf]
    refine (houtputs m (.inl ⟨"jobs", by decide, hm⟩)).resolve_right ?_
    rintro ⟨-, hnone, -⟩
    rw [hf] at hnone
    cases hnone
  have hne : m ≠ [] := ne_nil_of_ne_directory (d := d₁) (by simp [hleft])
  rw [← hwd] at hm
  refine ⟨d₁.remove m, ?_, node?_remove_below List.prefix_rfl hne d₁, fun l hl hml => ?_⟩
  · have hplanned : Leads c bundler (.planning, w) (.writing js es [], w) := .single (.plan hplan)
    have hreading := hplanned.trans ((takes_writeEntries c bundler js es).ok hwrite)
    exact ((hreading.step (.read hpackage)).step (.unlink hm (unlink_of_file hleft))).step
      (.notRemoved _ js es forceInlined ["groups"] "jobs" cause)
  · rw [Untouched, node?_remove_of_not_below hml]
    exact houtputs l hl

end Build

/-- Whatever fails, a build that ends without having asked the bundler leaves the manifest as it is, and the
artifacts too, but for those that it has removed when it cannot remove the rest. It asks the bundler at most
once, when all else has succeeded and with the manifest as it was, and writes the manifest when the bundler
has succeeded. What is run is one such build. -/
theorem build_outcome (c : Config) (bundler : Bundler) (w : Workspace) :
    (∀ result w', Build.Leads c bundler (.planning, w) (.done result, w') →
      Build.Ends c bundler w (result, w')) ∧
    ∃ result w', (build c bundler).run w = (result, w') ∧
      Build.Leads c bundler (.planning, w) (.done result, w') := by
  refine ⟨fun result w' h => ?_, Build.exists_leads_build c bundler w⟩
  cases h.sound with
  | done hends => exact hends

/-- Writes a text to a location, and fails. -/
def Bundler.overwriting (l : Location) (t : Content) : Bundler := fun _ => do
  set ((← get).put l (.file { content := t }))
  throw (.failed standInName "" "")

/-- With a file in the place of the directory of groups, the artifacts of jobs are gone though the bundler
is not asked; where the way to the output directory leads through that of the jobs, a directory is made
there; a bundler that fails may have written the manifest before; and where the directory of jobs cannot be
removed, some of the artifacts may be gone and others not. -/
theorem build_fails_after_removal :
    let d := (oneJob ["w"] ["w"]).disk.put ["w", "dist"] .directory
    let artifact : Node := .file { content := .text "" }
    (let old := (d.put ["w", "dist", "jobs"] .directory).put ["w", "dist", "jobs", "old.mjs"] artifact
      let w : Workspace := { disk := old.put ["w", "dist", "groups"] artifact }
      let done := (build { pattern := "a.ts" } .standIn).run w
      done.1.toOption = none ∧ done.2.requests = [] ∧
        w.disk.node? ["w", "dist", "jobs", "old.mjs"] ≠ none ∧
        done.2.disk.node? ["w", "dist", "jobs", "old.mjs"] = none) ∧
    (let w : Workspace := { disk := d.put ["w", "package.json"] .directory }
      let done := (build { pattern := "a.ts", outDir := ⟨"dist/jobs/x/../.."⟩ } .standIn).run w
      done.1.toOption = none ∧ done.2.requests = [] ∧
        w.disk.node? ["w", "dist", "jobs", "x"] = none ∧
        done.2.disk.node? ["w", "dist", "jobs", "x"] = some .directory) ∧
    (let bundler := Bundler.overwriting ["w", "dist", "manifest.json"] (.text "")
      let done := (build { pattern := "a.ts" } bundler).run { disk := d }
      done.1.toOption = none ∧ done.2.requests.length = 1 ∧
        d.node? ["w", "dist", "manifest.json"] = none ∧
        done.2.disk.node? ["w", "dist", "manifest.json"] ≠ none) ∧
    (let old := (d.put ["w", "dist", "jobs"] .directory).put ["w", "dist", "jobs", "a.mjs"] artifact
      let w : Workspace := { disk := old.put ["w", "dist", "jobs", "b.mjs"] artifact }
      ∃ e d', Build.Leads { pattern := "a.ts" } .standIn (.planning, w) (.done (.error e), { w with disk := d' }) ∧
        w.disk.node? ["w", "dist", "jobs", "a.mjs"] ≠ none ∧
        d'.node? ["w", "dist", "jobs", "a.mjs"] = none ∧
        w.disk.node? ["w", "dist", "jobs", "b.mjs"] ≠ none ∧
        d'.node? ["w", "dist", "jobs", "b.mjs"] ≠ none) := by
  refine ⟨by decide +kernel, by decide +kernel, by decide +kernel, ?_⟩
  intro old w
  have hready : (Build.plan { pattern := "a.ts" } w.disk).toOption.any fun x =>
      ((Build.writeEntries x.2).run w.disk).1.isOk &&
        (Build.dependencies ⟨"."⟩ ((Build.writeEntries x.2).run w.disk).2).isOk := by
    decide +kernel
  cases hplan : Build.plan { pattern := "a.ts" } w.disk with
  | error e =>
    rw [hplan] at hready
    cases hready
  | ok x =>
    rw [hplan] at hready
    obtain ⟨hwritten, hread⟩ := (Bool.and_eq_true_iff.1 hready :)
    rcases hwrite : (Build.writeEntries x.2).run w.disk with ⟨e | _, d₁⟩
    · rw [hwrite] at hwritten
      cases hwritten
    · rw [hwrite] at hread
      cases hpackage : Build.dependencies ⟨"."⟩ d₁ with
      | error e =>
        rw [hpackage] at hread
        cases hread
      | ok forceInlined =>
        obtain ⟨d', hleads, hgone, hleft⟩ := Build.exists_leads_notRemoved .standIn .permissionDenied hplan
          hwrite hpackage (m := ["w", "dist", "jobs", "a.mjs"]) (by decide) rfl
        refine ⟨_, d', hleads, by decide, hgone, by decide, ?_⟩
        have hother := hleft ["w", "dist", "jobs", "b.mjs"] (.inl ⟨"jobs", by decide, by decide⟩) (by decide)
        rw [hother.eq]
        · decide
        · decide

end JobBundler
