import JobBundler.Proofs.Entry.Plan
import JobBundler.Proofs.Build.Stages
import JobBundler.Proofs.Disk.Removal

/-!
# The sources after a build
-/

namespace JobBundler

open Disk

variable {wd l : Location} {t : Content}

/-! ## Frames of the stages -/

namespace Build

variable {R : Disk → Disk → Prop}

theorem keeps_writeEntry_of (hR : IsFrame R) {e : EntryModule}
    (hm : ∀ p, e.path.parent? = some p → Keeps R (makeDirs p))
    (hw : ∀ d d', Disk.write e.path (.text e.text) d = .ok d' → R d d') : Keeps R (writeEntry e) := by
  have hwrite : Keeps R
      ((Action.change (Disk.write e.path (.text e.text))).orFail (BuildError.file .write e.path)) :=
    Action.keeps_orFail (Action.keeps_change hR hw) _
  unfold writeEntry
  split
  · exact .bind hR (Action.keeps_orFail (hm _ ‹_›) _) fun _ => hwrite
  · exact hwrite

theorem keeps_writeEntry {e : EntryModule} (h : destination wd e.path = l → .text e.text = t) :
    Keeps (At wd l (Retains t)) (writeEntry e) :=
  keeps_writeEntry_of (At.isFrame Retains.isFrame) (fun p _ => keeps_makeDirs_retains p)
    fun _ _ hw => at_write h hw

theorem keeps_writeEntries_of (hR : IsFrame R) {es : List EntryModule}
    (h : ∀ e ∈ es, Keeps R (writeEntry e)) : Keeps R (writeEntries es) := by
  refine .bind hR (.mapM hR fun e he => ?_) fun rs => .forM hR fun r _ => hR.refl
  exact Action.keeps_attempt (h e he)

theorem keeps_writeEntries {es : List EntryModule}
    (h : ∀ e ∈ es, destination wd e.path = l → .text e.text = t) :
    Keeps (At wd l (Retains t)) (writeEntries es) :=
  keeps_writeEntries_of (At.isFrame Retains.isFrame) fun e he => keeps_writeEntry (h e he)

theorem keeps_removeStale_of {p : Path}
    (h : ∀ d d', Removes p d d' → R d d') : Keeps R (removeStale p) :=
  Action.keeps_orFail (Action.keeps_unlessMissing fun d => h d _ (removes_removeAll p d)) _

theorem mem_artifactDirs {dir : String} : dir ∈ artifactDirs ↔ dir = "jobs" ∨ dir = "groups" := by
  simp [artifactDirs]

theorem keeps_clean_of (hR : IsFrame R) {p : Path}
    (h : ∀ dir ∈ artifactDirs, ∀ d d', Removes (p / dir) d d' → R d d') : Keeps R (clean p) :=
  .forM hR fun dir hdir => keeps_removeStale_of (h dir hdir)

theorem keeps_clean {p : Path} (h : ∀ dir ∈ artifactDirs, ¬destination wd (p / dir) <+: l) :
    Keeps (At wd l (Retains t)) (clean p) :=
  keeps_clean_of (At.isFrame Retains.isFrame) fun dir hdir _ _ hr =>
    hr.at_of_not_below Retains.isFrame (h dir hdir)

end Build

theorem Manifest.keeps_save_of {R : Disk → Disk → Prop} (hR : IsFrame R) {m : Manifest} {p : Path}
    (hm : ∀ q, p.parent? = some q → Keeps R (makeDirs q)) (hp : Keeps R (m.replacement p).perform) :
    Keeps R (m.save p) := by
  refine Action.keeps_orFail ?_ _
  split
  · exact .bind hR (hm _ ‹_›) fun _ => hp
  · exact hp

theorem Manifest.keeps_save {m : Manifest} {p : Path}
    (ht : ¬destination wd (p.withExtension "json.tmp") <+: l)
    (hc : destination wd p = l → .text m.render = t) :
    Keeps (At wd l (Retains t)) (m.save p) :=
  keeps_save_of (At.isFrame Retains.isFrame) (fun _ _ => keeps_makeDirs_retains _)
    (Replacement.keeps_perform ht hc)

/-! ## What is spared -/

/-- A bundler that makes artifacts and directories for them, and nothing else. -/
def Bundler.WritesOnlyArtifacts (bundler : Bundler) : Prop :=
  ∀ r d l, (∀ key ∈ r.entries.keys, destination d.workingDir (r.artifact key) ≠ l) →
    At d.workingDir l Makes d ((bundler r).run d).2

/-- A build that has planned these jobs and entries has nothing to do with a file at the location, or
nothing but to write what is there already. -/
structure Build.Spares (c : Config) (wd : Location) (js : List Job) (es : List EntryModule)
    (l : Location) (t : Content) : Prop where
  removal : ∀ dir ∈ artifactDirs, ¬destination wd (c.outPath / dir) <+: l
  entry : ∀ e ∈ es, destination wd e.path = l → .text e.text = t
  artifact : ∀ e ∈ es, destination wd (c.artifactFile s!"{e.key}.{c.artifactExt}") ≠ l
  manifest : destination wd c.manifestPath = l → .text (report c js).manifest.render = t
  temporary : ¬destination wd (c.manifestPath.withExtension "json.tmp") <+: l

instance (c : Config) (wd : Location) (js : List Job) (es : List EntryModule) (l : Location)
    (t : Content) : Decidable (Build.Spares c wd js es l t) :=
  decidable_of_iff
    ((∀ dir ∈ Build.artifactDirs, ¬destination wd (c.outPath / dir) <+: l) ∧
      (∀ e ∈ es, destination wd e.path = l → .text e.text = t) ∧
      (∀ e ∈ es, destination wd (c.artifactFile s!"{e.key}.{c.artifactExt}") ≠ l) ∧
      (destination wd c.manifestPath = l → .text (Build.report c js).manifest.render = t) ∧
      ¬destination wd (c.manifestPath.withExtension "json.tmp") <+: l)
    ⟨fun ⟨h₁, h₂, h₃, h₄, h₅⟩ => ⟨h₁, h₂, h₃, h₄, h₅⟩,
      fun ⟨h₁, h₂, h₃, h₄, h₅⟩ => ⟨h₁, h₂, h₃, h₄, h₅⟩⟩

namespace Workspace.Action

variable {ε ε' α : Type} {R : Disk → Disk → Prop}

theorem onDisk_isFrame (hR : IsFrame R) :
    IsFrame fun w w' : Workspace => R w.disk w'.disk :=
  ⟨fun w => hR.refl w.disk, hR.trans⟩

theorem keeps_onDisk {x : Disk.Action ε α} (hx : Keeps R x) (f : ε → ε') :
    Keeps (fun w w' : Workspace => R w.disk w'.disk) (onDisk x f) := by
  intro w
  rw [run_onDisk]
  exact hx w.disk

theorem keeps_view (hR : IsFrame R) (x : Disk → Except ε α) (f : ε → ε') :
    Keeps (fun w w' : Workspace => R w.disk w'.disk) (view x f) := by
  intro w
  rw [run_view]
  exact hR.refl w.disk

end Workspace.Action

theorem Bundler.WritesOnlyArtifacts.keeps_bundle {bundler : Bundler}
    (hb : bundler.WritesOnlyArtifacts) {r : BundleRequest}
    (h : ∀ key ∈ r.entries.keys, destination wd (r.artifact key) ≠ l) {ε : Type}
    (f : BundleError → ε) :
    Keeps (fun w w' : Workspace => At wd l (Retains t) w.disk w'.disk)
      (Workspace.Action.bundle bundler r f) := by
  intro w
  rw [Workspace.Action.run_bundle]
  rintro rfl
  exact (hb r w.disk l h).mono (fun _ _ => Makes.retains) rfl

namespace Build

/-- What a build does with its plan. -/
def execute (c : Config) (bundler : Bundler) (js : List Job) (es : List EntryModule) :
    Workspace.Action BuildError BuildReport := do
  .onDisk (writeEntries es) id
  let forceInlined ← .view (dependencies c.root) id
  .onDisk (clean c.outPath) id
  finish c bundler js (request c es forceInlined)

theorem build_eq_execute (c : Config) (bundler : Bundler) :
    build c bundler = .view (plan c) id >>= fun x => execute c bundler x.1 x.2 :=
  rfl

theorem mem_of_mem_keys {c : Config} {es : List EntryModule} {forceInlined : List String}
    {key : String} (h : key ∈ (request c es forceInlined).entries.keys) : ∃ e ∈ es, e.key = key := by
  obtain ⟨e, he, rfl⟩ := List.mem_map.1 h
  obtain ⟨e', he', rfl⟩ := List.mem_map.1 (Index.mem_of_mem_toList_ofList he)
  exact ⟨e', he', rfl⟩

open Workspace.Action in
theorem keeps_finish {c : Config} {bundler : Bundler} {js : List Job} {es : List EntryModule}
    {forceInlined : List String} (hb : bundler.WritesOnlyArtifacts)
    (h : Spares c wd js es l t) :
    Keeps (fun w w' : Workspace => At wd l (Retains t) w.disk w'.disk)
      (finish c bundler js (request c es forceInlined)) := by
  have hR : IsFrame (At wd l (Retains t)) := At.isFrame Retains.isFrame
  have hRw := onDisk_isFrame hR
  have hsave : Keeps (At wd l (Retains t)) ((report c js).manifest.save c.manifestPath) :=
    Manifest.keeps_save h.temporary h.manifest
  have hkeys : ∀ key ∈ (request c es forceInlined).entries.keys,
      destination wd ((request c es forceInlined).artifact key) ≠ l := by
    intro key hkey
    obtain ⟨e, he, rfl⟩ := mem_of_mem_keys hkey
    exact h.artifact e he
  have hbundle := hb.keeps_bundle (t := t) hkeys BuildError.bundle
  have hwrite := keeps_onDisk hsave BuildError.manifest
  unfold finish
  generalize request c es forceInlined = r at hbundle
  generalize (report c js).manifest.save c.manifestPath = x at hwrite
  exact .bind hRw hbundle fun _ => .bind hRw hwrite fun _ => .pure hRw _

open Workspace.Action in
theorem keeps_execute {c : Config} {bundler : Bundler} {js : List Job} {es : List EntryModule}
    (hb : bundler.WritesOnlyArtifacts) (h : Spares c wd js es l t) :
    Keeps (fun w w' : Workspace => At wd l (Retains t) w.disk w'.disk)
      (execute c bundler js es) := by
  have hR : IsFrame (At wd l (Retains t)) := At.isFrame Retains.isFrame
  have hRw := onDisk_isFrame hR
  refine .bind hRw (keeps_onDisk (keeps_writeEntries h.entry) id) fun _ => ?_
  refine .bind hRw (keeps_view hR (dependencies c.root) id) fun forceInlined => ?_
  refine .bind hRw (keeps_onDisk (keeps_clean h.removal) id) fun _ => ?_
  exact keeps_finish hb h

end Build

/-- A build leaves a file that it spares as it is, wherever it stops. -/
theorem retains_build {c : Config} {bundler : Bundler} {w : Workspace}
    (hb : bundler.WritesOnlyArtifacts)
    (hs : ∀ js es, Build.plan c w.disk = .ok (js, es) →
      Build.Spares c w.disk.workingDir js es l t) :
    Retains t (w.disk.node? l) (((build c bundler).run w).2.disk.node? l) := by
  rw [Build.build_eq_execute, run_bind, Workspace.Action.run_view]
  rcases hp : Build.plan c w.disk with e | ⟨js, es⟩
  · exact id
  · exact (Build.keeps_execute hb (hs js es hp) w rfl).2

end JobBundler
