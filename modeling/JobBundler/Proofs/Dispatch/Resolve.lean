import JobBundler.Dispatch.Dispatcher
import JobBundler.Proofs.Build.Course
import JobBundler.Proofs.Entry.Coverage
import JobBundler.Proofs.Manifest

/-!
# Dispatch after a build

After a build the dispatcher finds every job in the artifact that the bundler has made of the job's entry
module, and no other id leads to a file (`build_dispatches`). That the names of entries, artifacts and the
manifest agree is what this rests on, and that the artifacts of earlier builds are removed.
-/

namespace JobBundler

open Disk
open JobBundler.Path (Component)

variable {c : Config} {bundler : Bundler} {d : Disk} {w w' : Workspace} {js : List Job}

/-! ## What a dispatcher does -/

namespace Dispatcher

theorem run_get_bind {α : Type} (f : Journal → Action α) (journal : Journal) :
    (get >>= f : Action α).run journal = (f journal).run journal :=
  rfl

theorem run_work {ε α : Type} (x : Workspace.Action ε α) (f : ε → DispatchError) (journal : Journal) :
    (work x f).run journal =
      ((x.run journal.workspace).1.mapError f,
        { journal with workspace := (x.run journal.workspace).2 }) := by
  unfold work
  rw [run_get_bind]
  generalize x.run journal.workspace = y
  rcases y with ⟨_ | _, w⟩ <;> rfl

theorem run_view {α : Type} (x : Disk → Except DispatchError α) (journal : Journal) :
    (view x).run journal = (x journal.workspace.disk, journal) := by
  unfold view
  rw [run_work, Workspace.Action.run_view]
  cases x journal.workspace.disk <;> rfl

/-- Without a rebuild, a job is run from the artifact that is there, or not at all. -/
theorem run_ensureBuilt {p : Dispatcher} {id : String} {r : Resolved} {journal : Journal}
    (h : resolve p.config id journal.workspace.disk = .ok r) :
    (p.ensureBuilt id true).run journal =
      (if journal.workspace.disk.isFile r.file then .ok r
        else .error (.missingArtifact id (p.config.displayArtifact r.artifactPath)), journal) := by
  have hlook : look p.config id journal.workspace.disk =
      .ok (r, journal.workspace.disk.isFile r.file) := by
    unfold look
    rw [h]
    rfl
  unfold ensureBuilt
  rw [run_bind, run_view, hlook]
  cases journal.workspace.disk.isFile r.file <;> rfl

/-- A job is looked for where the manifest says, or else in an artifact of its own. -/
theorem resolve_eq {m : Manifest} (h : Manifest.load c.manifestPath d = .ok (some m)) (id : JobId) :
    resolve c id.text d =
      let artifactPath := match m.get? id with
        | some e => e.artifactPath
        | none => jobArtifactPath id.text c.artifactExt
      .ok { artifactPath, file := c.artifactFile artifactPath, entry := m.get? id } := by
  have hid : JobId.parse id.text = .ok id := JobId.parse_eq_ok_iff.2 rfl
  have hentry : manifestEntry c id.text d = .ok (m.get? id) := by
    unfold manifestEntry
    rw [h]
    rfl
  unfold resolve
  rw [hid]
  simp only [Except.mapError, bind, Except.bind, hentry]
  rfl

end Dispatcher

/-! ## The manifest of a build -/

namespace Build

/-- The manifest of a build lists its jobs. -/
theorem get?_report_iff (hids : (js.map (·.id)).Nodup) {id : JobId} {e : ManifestEntry} :
    (report c js).manifest.get? id = some e ↔ ∃ j ∈ js, j.id = id ∧ (record c j).entry = e := by
  have hkeys : (((js.map (record c)).map fun b => (b.id, b.entry)).map (·.1)).Nodup := by
    rw [List.map_map, List.map_map]
    exact hids
  rw [← Index.mem_toList_iff, report, Index.mem_ofList_iff hkeys, List.map_map, List.mem_map]
  constructor
  · rintro ⟨j, hj, heq⟩
    cases heq
    exact ⟨j, hj, rfl, rfl⟩
  · rintro ⟨j, hj, rfl, rfl⟩
    exact ⟨j, hj, rfl⟩

end Build

/-! ## Jobs and their artifacts -/

/-- The entry module that a job is in: one of its own, or that of its group. -/
inductive Job.IsIn (c : Config) (files : List SourceFile) (js : List Job) (j : Job) : EntryModule → Prop
  | alone {e : EntryModule} (hgroup : j.group = none) (h : plannedJob c files j = .ok e) :
    IsIn c files js j e
  | grouped {name : GroupName} (hgroup : j.group = some name) :
    IsIn c files js j (name.entry (js.filter (·.group == some name)) (c.scratchDir / "groups"))

/-- The manifest leads to the artifact of the entry module that the job is in. -/
theorem Job.IsIn.artifactPath {files : List SourceFile} {j : Job} {e : EntryModule}
    (h : j.IsIn c files js e) :
    (Build.record c j).entry.artifactPath = s!"{e.key}.{c.artifactExt}" ∧
      ((Build.record c j).entry.mode = .group ↔ j.group ≠ none) := by
  cases h with
  | alone hgroup h =>
    rw [plannedJob_eq_ok h]
    simp only [Build.record, hgroup]
    exact ⟨rfl, by simp [ManifestEntry.single]⟩
  | grouped hgroup =>
    simp only [Build.record, hgroup]
    exact ⟨rfl, by simp [ManifestEntry.group]⟩

theorem exists_isIn {files : List SourceFile} {es : List EntryModule} (hids : (js.map (·.id)).Nodup)
    (hes : planEntries c files js = .ok es) {j : Job} (hj : j ∈ js) : ∃ e ∈ es, j.IsIn c files js e := by
  cases hgroup : j.group with
  | none =>
    obtain ⟨e, he⟩ := exists_plannedJob hes hj hgroup
    exact ⟨e, (mem_planEntries_iff hids hes).2 (.inl ⟨j, hj, hgroup, he⟩), .alone hgroup he⟩
  | some name =>
    exact ⟨_, (mem_planEntries_iff hids hes).2 (.inr ⟨name, ⟨j, hj, hgroup⟩, rfl⟩), .grouped hgroup⟩

/-- An entry with the key of a job is that of a job. -/
theorem mem_ids_of_key {files : List SourceFile} {es : List EntryModule} (hids : (js.map (·.id)).Nodup)
    (hes : planEntries c files js = .ok es) {e : EntryModule} (he : e ∈ es) {id : JobId}
    (hkey : e.key = jobEntryKey id.text) : id ∈ js.map (·.id) := by
  rcases (mem_planEntries_iff hids hes).1 he with ⟨j, hj, -, hplanned⟩ | ⟨name, -, rfl⟩
  · rw [plannedJob_eq_ok hplanned, jobEntryKey_inj] at hkey
    exact List.mem_map.2 ⟨j, hj, JobId.ext hkey⟩
  · exact absurd hkey.symm (jobEntryKey_ne_groupEntryKey _ _)

namespace Dispatcher

/-- The dispatchers of a configuration run the job from the artifact that it is resolved to, and do not ask
for a rebuild. -/
structure Finds (c : Config) (d : Disk) (j : Job) (r : Resolved) : Prop where
  resolve : resolve c j.id.text d = .ok r
  present : d.isFile r.file
  mode : ∃ e, r.entry = some e ∧ (e.mode = .group ↔ j.group ≠ none)
  ensureBuilt (p : Dispatcher) (journal : Journal) (hc : p.config = c) (hd : journal.workspace.disk = d) :
    (p.ensureBuilt j.id.text true).run journal = (.ok r, journal)

/-- The dispatchers of a configuration have nothing to run for the id. -/
structure Misses (c : Config) (d : Disk) (id : JobId) (r : Resolved) : Prop where
  resolve : resolve c id.text d = .ok r
  absent : d.isFile r.file = false
  ensureBuilt (p : Dispatcher) (journal : Journal) (hc : p.config = c) (hd : journal.workspace.disk = d) :
    (p.ensureBuilt id.text true).run journal =
      (.error (.missingArtifact id.text (c.displayArtifact r.artifactPath)), journal)

end Dispatcher

namespace Build.Passes

variable {es : List EntryModule} {forceInlined : List String} {d₁ d₂ d₃ d₄ : Disk}
  (h : Passes c bundler d js es forceInlined d₁ d₂ d₃ d₄) (hb : bundler.IsExact) (hd : d.WellFormed)
  (hext : '/' ∉ c.artifactExt.toList)

include h in
theorem nodup_ids : (js.map (·.id)).Nodup := by
  obtain ⟨found, -, hjs, -⟩ := plan_eq_ok h.plan
  exact JobBundler.nodup_ids hjs

include h hb hd hext

theorem resolve_eq (id : JobId) : Dispatcher.resolve c id.text d₄ =
    let artifactPath := match (report c js).manifest.get? id with
      | some e => e.artifactPath
      | none => jobArtifactPath id.text c.artifactExt
    .ok { artifactPath, file := c.artifactFile artifactPath, entry := (report c js).manifest.get? id } :=
  Dispatcher.resolve_eq (Manifest.load_of_readText (h.readText_manifest hb hd hext)) id

theorem finds {files : List SourceFile} {j : Job} (hj : j ∈ js) {e : EntryModule} (he : e ∈ es)
    (hin : j.IsIn c files js e) : ∃ r, r.file = (request c es forceInlined).artifact e.key ∧
      Dispatcher.Finds c d₄ j r := by
  obtain ⟨hpath, hmode⟩ := hin.artifactPath
  have hentry : (report c js).manifest.get? j.id = some (record c j).entry :=
    (get?_report_iff h.nodup_ids).2 ⟨j, hj, rfl, rfl⟩
  have hresolve := h.resolve_eq hb hd hext j.id
  rw [hentry] at hresolve
  have hfile : c.artifactFile (record c j).entry.artifactPath =
      (request c es forceInlined).artifact e.key := congrArg (c.outPath / ·) hpath
  have hpresent : d₄.isFile (c.artifactFile (record c j).entry.artifactPath) := by
    rw [hfile]
    exact (h.isFile_artifact₄ hb hd hext he).2
  refine ⟨_, hfile, hresolve, hpresent, ⟨_, rfl, hmode⟩, ?_⟩
  rintro p journal rfl rfl
  rw [Dispatcher.run_ensureBuilt hresolve, if_pos hpresent]

/-- Where the artifact of a job would be that is none of the build, there is no file. -/
theorem isFile_eq_false {id : JobId} (hid : id ∉ js.map (·.id)) :
    d₄.isFile (c.artifactFile (jobArtifactPath id.text c.artifactExt)) = false := by
  obtain ⟨found, -, -, hes⟩ := plan_eq_ok h.plan
  have hjobs : (Component.normal "jobs").IsStep := isStep_dir (by decide)
  have hstep := isStep_artifactFile hext (Config.artifactExt_ne_empty h.validate) id.valid
  have hpath : c.artifactFile (jobArtifactPath id.text c.artifactExt) =
      c.outPath / "jobs" / s!"{id.text}.{c.artifactExt}" := by
    rw [← div_div hjobs hstep]
    have htext : "jobs/" ++ id.text ++ "." ++ c.artifactExt =
        "jobs/" ++ (id.text ++ "." ++ c.artifactExt) := by
      simp only [String.append_assoc]
    exact congrArg (c.outPath / ·) htext
  rw [hpath]
  have hbelow : destination d.workingDir (c.outPath / "jobs") <+:
      destination d.workingDir (c.outPath / "jobs" / s!"{id.text}.{c.artifactExt}") := by
    rw [destination_div hstep]
    exact List.prefix_append _ _
  have hother : ∀ e ∈ es, destination d.workingDir ((request c es forceInlined).artifact e.key) ≠
      destination d.workingDir (c.outPath / "jobs" / s!"{id.text}.{c.artifactExt}") := by
    intro e he heq
    obtain ⟨dir, hdir, name, -, hkey, hstep', hartifact⟩ := h.artifact hext he
    rw [hartifact, destination_div hstep', destination_div (isStep_dir hdir), destination_div hstep,
      destination_div hjobs] at heq
    obtain ⟨heq, hname⟩ := List.append_inj' heq rfl
    obtain ⟨-, hdirs⟩ := List.append_inj' heq rfl
    obtain rfl : name = id.text := artifactFile_inj.1 (List.singleton_inj.1 hname)
    obtain rfl : dir = "jobs" := List.singleton_inj.1 hdirs
    exact hid (mem_ids_of_key h.nodup_ids hes he hkey)
  have hnone := h.none_of_jobs hd hbelow (by simp [destination_div hstep])
  have hmade := h.makesOn_bundle hb hother
  obtain ⟨hne, ht⟩ := apart_of_artifactDir (by decide) hbelow
  have hsame := h.node?_save hb hext hne ht
  have hwd : d₄.workingDir = d.workingDir := h.workingDir₄.trans (h.workingDir₃ hb)
  rw [Bool.eq_false_iff]
  intro hfile
  obtain ⟨f, hf⟩ := isFile_iff.1 hfile
  have hnode := (nodeAt_eq_file_iff.1 hf).2.2
  rw [hwd, hsame] at hnode
  rw [hnone] at hmade
  rcases hmade with hmade | ⟨-, -, hmade⟩
  · rw [hnode] at hmade
    cases hmade
  · rw [hnode] at hmade
    cases hmade

theorem misses {id : JobId} (hid : id ∉ js.map (·.id)) : ∃ r, Dispatcher.Misses c d₄ id r := by
  have hentry : (report c js).manifest.get? id = none := by
    rw [Option.eq_none_iff_forall_ne_some]
    intro e he
    obtain ⟨j, hj, rfl, -⟩ := (get?_report_iff h.nodup_ids).1 he
    exact hid (List.mem_map.2 ⟨j, hj, rfl⟩)
  have hresolve := h.resolve_eq hb hd hext id
  rw [hentry] at hresolve
  have habsent := h.isFile_eq_false hb hd hext hid
  refine ⟨_, hresolve, habsent, ?_⟩
  rintro p journal rfl rfl
  rw [Dispatcher.run_ensureBuilt hresolve, if_neg (by simp [habsent])]

end Build.Passes

/-- A build makes every job of its report run from the artifact of the job's entry module, and leaves
nothing that could be run for any other id. -/
theorem build_dispatches (hext : '/' ∉ c.artifactExt.toList) (hb : bundler.IsExact) (hd : w.disk.WellFormed)
    {rep : BuildReport} (h : (build c bundler).run w = (.ok rep, w')) :
    ∃ found js es r d₂ d₃, discover c w.disk = .ok found ∧ planEntries c found.files js = .ok es ∧
      rep = Build.report c js ∧ w'.requests = w.requests ++ [r] ∧ (bundler r).run d₂ = (.ok (), d₃) ∧
      (∀ j ∈ js, ∃ e ∈ es, j.IsIn c found.files js e ∧ ∃ resolved, resolved.file = r.artifact e.key ∧
        w'.disk.node? (destination w.disk.workingDir (r.artifact e.key)) =
          d₃.node? (destination w.disk.workingDir (r.artifact e.key)) ∧
        Dispatcher.Finds c w'.disk j resolved) ∧
      ∀ id : JobId, id ∉ rep.jobs.map (·.id) → ∃ resolved, Dispatcher.Misses c w'.disk id resolved := by
  obtain ⟨js, es, forceInlined, d₁, d₂, d₃, d₄, hpasses, rfl, rfl⟩ := run_build_eq_ok_iff.1 h
  obtain ⟨found, hfound, hjs, hes⟩ := Build.plan_eq_ok hpasses.plan
  refine ⟨found, js, es, Build.request c es forceInlined, d₂, d₃, hfound, hes, rfl, rfl, hpasses.bundle,
    ?_, ?_⟩
  · intro j hj
    obtain ⟨e, he, hin⟩ := exists_isIn (nodup_ids hjs) hes hj
    obtain ⟨resolved, hfile, hfinds⟩ := hpasses.finds hb hd hext hj he hin
    exact ⟨e, he, hin, resolved, hfile, (hpasses.isFile_artifact₄ hb hd hext he).1, hfinds⟩
  · intro id hid
    have hids : (Build.report c js).jobs.map (·.id) = js.map (·.id) := by
      rw [Build.report, List.map_map]
      rfl
    rw [hids] at hid
    exact hpasses.misses hb hd hext hid

/-- A job in a group, one by itself, and the artifact of a job that is gone. -/
theorem groupedProject_dispatches :
    let c : Config := { pattern := "a.ts", mode := .grouped }
    let text := "@job @group('x') export class A \x7b\x7d\n@job export class B \x7b\x7d"
    let old := (((Disk.bare ["w"]).put ["w", "dist"] .directory).put ["w", "dist", "jobs"] .directory).put
      ["w", "dist", "jobs", "C.mjs"] (.file { content := .text "" })
    let w : Workspace := { disk := old.put ["w", "a.ts"] (.file { content := .text text }) }
    '/' ∉ c.artifactExt.toList ∧ Bundler.standIn.IsExact ∧ w.disk.WellFormed ∧
      ∃ rep w', (build c .standIn).run w = (.ok rep, w') ∧ rep.jobs.map (·.id.text) = ["A", "B"] ∧
        (∃ js, rep = Build.report c js ∧ ∀ j ∈ js, ∃ r, Dispatcher.Finds c w'.disk j r) ∧
        ∀ id : JobId, id ∉ rep.jobs.map (·.id) → ∃ r, Dispatcher.Misses c w'.disk id r := by
  intro c text old w
  have hext : '/' ∉ c.artifactExt.toList := by decide
  have hd : w.disk.WellFormed := by decide
  have hids : ((build c .standIn).run w).1.toOption.map (·.jobs.map (·.id.text)) = some ["A", "B"] := by
    decide +kernel
  rcases hrun : (build c .standIn).run w with ⟨e | rep, w'⟩
  · rw [hrun] at hids
    cases hids
  · rw [hrun] at hids
    obtain ⟨found, js, es, r, d₂, d₃, -, -, hreport, -, -, hfinds, hmisses⟩ :=
      build_dispatches hext Bundler.isExact_standIn hd hrun
    refine ⟨hext, Bundler.isExact_standIn, hd, rep, w', rfl, Option.some.inj hids, ⟨js, hreport, ?_⟩, hmisses⟩
    intro j hj
    obtain ⟨e, -, -, resolved, -, -, hfound⟩ := hfinds j hj
    exact ⟨resolved, hfound⟩

end JobBundler
