import JobBundler.Proofs.Build.Losses
import JobBundler.Proofs.Disk.Keeping
import JobBundler.Proofs.Manifest.Saving

/-!
# Builds step by step

A build is a number of steps, most of which change one node of the disk. Each of them may fail with any error,
and then the build ends with what has been done so far (`Build.Advances`). The entries are written side by side,
and the old artifacts are removed node by node. A build that is run goes through such steps
(`exists_leads_build`).
-/

namespace JobBundler

open Disk

variable {c : Config} {bundler : Bundler} {w w' : Workspace} {d d' : Disk}

namespace Build

/-! ## Stages and steps -/

/-- How far a build is. -/
inductive Stage where
  | planning
  /-- The entries are being written, and these of them have been. -/
  | writing (js : List Job) (es written : List EntryModule)
  | reading (js : List Job) (es : List EntryModule)
  /-- These directories of artifacts are to be removed, and then the bundler is asked. -/
  | cleaning (js : List Job) (es : List EntryModule) (forceInlined dirs : List String)
  | saving (js : List Job) (s : Replacement.Stage)
  | done (result : Except BuildError BuildReport)

/-- How the manifest of the jobs is saved. -/
def replacement (c : Config) (js : List Job) : Replacement :=
  (report c js).manifest.replacement c.manifestPath

/-- The content of the beginning of an entry. -/
def beginning (e : EntryModule) (size : Nat) : Content :=
  .ofList (e.text.toUTF8.data.toList.take size)

/-- The steps of a build. -/
inductive Advances (c : Config) (bundler : Bundler) : Stage → Workspace → Stage → Workspace → Prop
  | plan {w : Workspace} {js : List Job} {es : List EntryModule} (h : plan c w.disk = .ok (js, es)) :
    Advances c bundler .planning w (.writing js es []) w
  | notPlanned (w : Workspace) (e : BuildError) : Advances c bundler .planning w (.done (.error e)) w
  | makeDir {w : Workspace} {js : List Job} {es ws : List EntryModule} {e : EntryModule} {parent p : Path}
    {d : Disk} (he : e ∈ es) (hparent : e.path.parent? = some parent) (hp : p ∈ ancestors parent)
    (hne : p.text ≠ "") (h : makeDir p w.disk = .ok d) :
    Advances c bundler (.writing js es ws) w (.writing js es ws) { w with disk := d }
  /-- An entry is made or emptied, or more of it is written. -/
  | fill {w : Workspace} {js : List Job} {es ws : List EntryModule} {e : EntryModule} {d : Disk}
    (he : e ∈ es) (hw : e ∉ ws) (size : Nat) (h : Disk.write e.path (beginning e size) w.disk = .ok d) :
    Advances c bundler (.writing js es ws) w (.writing js es ws) { w with disk := d }
  | write {w : Workspace} {js : List Job} {es ws : List EntryModule} {e : EntryModule} {d : Disk}
    (he : e ∈ es) (h : Disk.write e.path (.text e.text) w.disk = .ok d) :
    Advances c bundler (.writing js es ws) w (.writing js es (e :: ws)) { w with disk := d }
  | notWritten (w : Workspace) (js : List Job) (es ws : List EntryModule) (e : BuildError) :
    Advances c bundler (.writing js es ws) w (.done (.error e)) w
  | written {w : Workspace} {js : List Job} {es ws : List EntryModule} (h : es ⊆ ws) :
    Advances c bundler (.writing js es ws) w (.reading js es) w
  | read {w : Workspace} {js : List Job} {es : List EntryModule} {forceInlined : List String}
    (h : dependencies c.root w.disk = .ok forceInlined) :
    Advances c bundler (.reading js es) w (.cleaning js es forceInlined artifactDirs) w
  | notRead (w : Workspace) (js : List Job) (es : List EntryModule) (e : BuildError) :
    Advances c bundler (.reading js es) w (.done (.error e)) w
  | unlink {w : Workspace} {js : List Job} {es : List EntryModule} {forceInlined dirs : List String}
    {dir : String} {m : Location} {d : Disk} (hm : destination w.disk.workingDir (c.outPath / dir) <+: m)
    (h : unlink m w.disk = .ok d) :
    Advances c bundler (.cleaning js es forceInlined (dir :: dirs)) w
      (.cleaning js es forceInlined (dir :: dirs)) { w with disk := d }
  /-- There is no such directory, or not any more. -/
  | removed {w : Workspace} {js : List Job} {es : List EntryModule} {forceInlined dirs : List String}
    {dir : String} (h : w.disk.nodeAt (c.outPath / dir) = .error .notFound) :
    Advances c bundler (.cleaning js es forceInlined (dir :: dirs)) w (.cleaning js es forceInlined dirs) w
  | notRemoved (w : Workspace) (js : List Job) (es : List EntryModule) (forceInlined dirs : List String)
    (dir : String) (cause : FileError) :
    Advances c bundler (.cleaning js es forceInlined (dir :: dirs)) w
      (.done (.error (.file .remove (c.outPath / dir) cause))) w
  | bundle {w : Workspace} {js : List Job} {es : List EntryModule} {forceInlined : List String} {d : Disk}
    (h : (bundler (request c es forceInlined)).run w.disk = (.ok (), d)) :
    Advances c bundler (.cleaning js es forceInlined []) w (.saving js .preparing)
      { w with disk := d, requests := w.requests ++ [request c es forceInlined] }
  | notBundled {w : Workspace} {js : List Job} {es : List EntryModule} {forceInlined : List String}
    {d : Disk} {e : BundleError} (h : (bundler (request c es forceInlined)).run w.disk = (.error e, d)) :
    Advances c bundler (.cleaning js es forceInlined []) w (.done (.error (.bundle e)))
      { w with disk := d, requests := w.requests ++ [request c es forceInlined] }
  | save {w : Workspace} {js : List Job} {s s' : Replacement.Stage} {moves : Replacement.Displacement}
    {d : Disk} (h : (replacement c js).Advances s w.disk moves s' d) :
    Advances c bundler (.saving js s) w (.saving js s') { w with disk := d }
  | saved (w : Workspace) (js : List Job) (made : Bool) :
    Advances c bundler (.saving js (.done made (.ok ()))) w (.done (.ok (report c js))) w
  | notSaved (w : Workspace) (js : List Job) (made : Bool) (e : FileError) :
    Advances c bundler (.saving js (.done made (.error e))) w
      (.done (.error (.manifest (.unwritable c.manifestPath e)))) w

/-- The course of a build from one point to another. -/
def Leads (c : Config) (bundler : Bundler) : Stage × Workspace → Stage × Workspace → Prop :=
  Relation.ReflTransGen fun x y => Advances c bundler x.1 x.2 y.1 y.2

namespace Leads

variable {x y z : Stage × Workspace} {s s' : Stage}

theorem trans (h : Leads c bundler x y) (h' : Leads c bundler y z) : Leads c bundler x z :=
  Relation.ReflTransGen.trans h h'

theorem single (h : Advances c bundler s w s' w') : Leads c bundler (s, w) (s', w') :=
  Relation.ReflTransGen.single h

theorem step (h : Leads c bundler x (s, w)) (hstep : Advances c bundler s w s' w') :
    Leads c bundler x (s', w') :=
  Relation.ReflTransGen.tail h hstep

/-- At one stage a build may go on and on with the disk. -/
theorem isFrame (c : Config) (bundler : Bundler) (s : Stage) (w : Workspace) :
    IsFrame fun d d' => Leads c bundler (s, { w with disk := d }) (s, { w with disk := d' }) :=
  ⟨fun _ => .refl, trans⟩

end Leads

/-! ## Runs are courses -/

/-- A part of a build takes it from one stage to another, or to its end when it fails. -/
structure Takes (c : Config) (bundler : Bundler) (s s' : Stage) (x : Disk.Action BuildError Unit) :
    Prop where
  ok {w : Workspace} {d : Disk} (h : x.run w.disk = (.ok (), d)) :
    Leads c bundler (s, w) (s', { w with disk := d })
  error {w : Workspace} {d : Disk} {e : BuildError} (h : x.run w.disk = (.error e, d)) :
    Leads c bundler (s, w) (.done (.error e), { w with disk := d })

theorem Takes.bind {s s' s'' : Stage} {x y : Disk.Action BuildError Unit} (hx : Takes c bundler s s' x)
    (hy : Takes c bundler s' s'' y) : Takes c bundler s s'' (x >>= fun _ => y) where
  ok {w d} h := by
    obtain ⟨_, d₁, h₁, h₂⟩ := run_bind_eq_ok_iff.1 h
    exact (hx.ok h₁).trans (hy.ok (w := { w with disk := d₁ }) h₂)
  error {w d e} h := by
    rcases run_bind_eq_error_iff.1 h with h₁ | ⟨_, d₁, h₁, h₂⟩
    · exact hx.error h₁
    · exact (hx.ok h₁).trans (hy.error (w := { w with disk := d₁ }) h₂)

/-! ### Writing the entries -/

section
variable (c : Config) (bundler : Bundler) (js : List Job) {es : List EntryModule} (ws : List EntryModule)

theorem exists_leads_write {e : EntryModule} (he : e ∈ es) (w : Workspace) :
    ∃ result ws' d, ((Action.change (Disk.write e.path (.text e.text))).orFail
          (BuildError.file .write e.path)).run w.disk = (result, d) ∧
      Leads c bundler (.writing js es ws, w) (.writing js es ws', { w with disk := d }) ∧
      ws ⊆ ws' ∧ (result = .ok () → e ∈ ws') := by
  rw [Action.run_orFail, Action.run_change]
  cases h : Disk.write e.path (.text e.text) w.disk with
  | error cause => exact ⟨_, ws, w.disk, rfl, .refl, List.Subset.refl ws, nofun⟩
  | ok d =>
    refine ⟨.ok (), e :: ws, d, rfl, .single (.write he h), List.subset_cons_self e ws, fun _ => ?_⟩
    exact List.mem_cons_self

theorem exists_leads_writeEntry {e : EntryModule} (he : e ∈ es) (w : Workspace) :
    ∃ result ws' d, (writeEntry e).run w.disk = (result, d) ∧
      Leads c bundler (.writing js es ws, w) (.writing js es ws', { w with disk := d }) ∧
      ws ⊆ ws' ∧ (result = .ok () → e ∈ ws') := by
  unfold writeEntry
  split
  · rename_i parent hparent
    have hmake : Keeps (fun d d' => Leads c bundler (.writing js es ws, { w with disk := d })
        (.writing js es ws, { w with disk := d' })) (makeDirs parent) :=
      keeps_makeDirsUpTo_of (Leads.isFrame c bundler _ w) fun p hp hne d d' h =>
        .single (.makeDir he hparent hp hne h)
    have hmade : Leads c bundler (.writing js es ws, w)
        (.writing js es ws, { w with disk := ((makeDirs parent).run w.disk).2 }) := hmake w.disk
    rw [run_bind, Action.run_orFail]
    rcases hdirs : (makeDirs parent).run w.disk with ⟨cause | _, d₁⟩
    · rw [hdirs] at hmade
      exact ⟨_, ws, d₁, rfl, hmade, List.Subset.refl ws, nofun⟩
    · rw [hdirs] at hmade
      obtain ⟨result, ws', d, hrun, hleads, hws⟩ := exists_leads_write c bundler js ws he { w with disk := d₁ }
      exact ⟨result, ws', d, hrun, hmade.trans hleads, hws⟩
  · exact exists_leads_write c bundler js ws he w

theorem exists_leads_results {es' : List EntryModule} (hes : es' ⊆ es) (w : Workspace) :
    ∃ rs ws' d, (es'.mapM fun e => (writeEntry e).attempt : Action BuildError _).run w.disk = (.ok rs, d) ∧
      Leads c bundler (.writing js es ws, w) (.writing js es ws', { w with disk := d }) ∧
      ws ⊆ ws' ∧ ((∀ r ∈ rs, r = .ok ()) → es' ⊆ ws') := by
  induction es' generalizing ws w with
  | nil => exact ⟨[], ws, w.disk, rfl, .refl, List.Subset.refl ws, fun _ => List.nil_subset ws⟩
  | cons e es' ih =>
    obtain ⟨he, hes'⟩ := List.cons_subset.1 hes
    obtain ⟨r, ws₁, d₁, hrun, hleads, hws, hwritten⟩ := exists_leads_writeEntry c bundler js ws he w
    obtain ⟨rs, ws₂, d₂, hruns, hleads', hws', hwritten'⟩ := ih ws₁ hes' { w with disk := d₁ }
    refine ⟨r :: rs, ws₂, d₂, ?_, hleads.trans hleads', List.Subset.trans hws hws', fun hok => ?_⟩
    · rw [List.mapM_cons]
      refine run_bind_eq_ok_iff.2 ⟨r, d₁, ?_, run_bind_eq_ok_iff.2 ⟨rs, d₂, hruns, rfl⟩⟩
      rw [Action.run_attempt, hrun]
    · rw [List.forall_mem_cons] at hok
      exact List.cons_subset.2 ⟨hws' (hwritten hok.1), hwritten' hok.2⟩

theorem run_results (rs : List (Except BuildError Unit)) (d : Disk) :
    ((rs.forM fun r => ExceptT.mk (pure r) : Action BuildError Unit).run d).2 = d := by
  have hR : IsFrame fun d d' : Disk => d' = d := ⟨fun _ => rfl, fun h h' => h'.trans h⟩
  exact Keeps.forM hR (fun r _ _ => rfl) d

theorem exists_leads_writeEntries (es : List EntryModule) (w : Workspace) :
    ∃ result ws d, (writeEntries es).run w.disk = (result, d) ∧
      Leads c bundler (.writing js es [], w) (.writing js es ws, { w with disk := d }) ∧
      (result = .ok () → es ⊆ ws) := by
  obtain ⟨rs, ws, d, hrun, hleads, -, hwritten⟩ :=
    exists_leads_results c bundler js [] (List.Subset.refl es) w
  have hsame := run_results rs d
  refine ⟨((rs.forM fun r => ExceptT.mk (pure r) : Action BuildError Unit).run d).1, ws, d, ?_, hleads,
    fun hok => hwritten ?_⟩
  · unfold writeEntries
    rw [run_bind, hrun]
    exact Prod.ext rfl hsame
  · exact (run_results_eq_ok (Prod.ext hok hsame)).1

theorem takes_writeEntries (es : List EntryModule) :
    Takes c bundler (.writing js es []) (.reading js es) (writeEntries es) where
  ok {w d} h := by
    obtain ⟨result, ws, d', hrun, hleads, hall⟩ := exists_leads_writeEntries c bundler js es w
    rw [h] at hrun
    cases hrun
    exact hleads.step (.written (hall rfl))
  error {w d e} h := by
    obtain ⟨result, ws, d', hrun, hleads, -⟩ := exists_leads_writeEntries c bundler js es w
    rw [h] at hrun
    cases hrun
    exact hleads.step (.notWritten _ js es ws e)

end

/-! ### Removing the old artifacts -/

section
variable {js : List Job} {es : List EntryModule} {forceInlined : List String}

theorem leads_of_removes {dir : String} {dirs : List String} (h : Removes (c.outPath / dir) w.disk d) :
    Leads c bundler (.cleaning js es forceInlined (dir :: dirs), w)
      (.cleaning js es forceInlined (dir :: dirs), { w with disk := d }) := by
  induction h with
  | refl => exact .refl
  | tail _ hstep ih =>
    obtain ⟨m, hm, hunlink⟩ := hstep
    exact ih.step (.unlink hm hunlink)

theorem takes_removeStale (dir : String) (dirs : List String) :
    Takes c bundler (.cleaning js es forceInlined (dir :: dirs)) (.cleaning js es forceInlined dirs)
      (removeStale (c.outPath / dir)) where
  ok h := (leads_of_removes (removes_removeStale h)).step (.removed (nodeAt_of_removeStale h))
  error h := by
    obtain ⟨hremoves, cause, rfl⟩ := removeStale_eq_error h
    exact (leads_of_removes hremoves).step (.notRemoved _ js es forceInlined dirs dir cause)

theorem takes_clean : Takes c bundler (.cleaning js es forceInlined artifactDirs)
    (.cleaning js es forceInlined []) (clean c.outPath) := by
  unfold clean
  generalize artifactDirs = dirs
  induction dirs with
  | nil => exact ⟨by rintro w d ⟨⟩; exact .refl, by rintro w d e ⟨⟩⟩
  | cons dir dirs ih => exact (takes_removeStale dir dirs).bind ih

/-! ### After the bundler is asked -/

theorem leads_save {s : Replacement.Stage} (h : (replacement c js).Leads (.preparing, w.disk) (s, d)) :
    Leads c bundler (.saving js .preparing, w) (.saving js s, { w with disk := d }) := by
  suffices ∀ x, (replacement c js).Leads (.preparing, w.disk) x →
      Leads c bundler (.saving js .preparing, w) (.saving js x.1, { w with disk := x.2 }) from this _ h
  intro x hx
  induction hx with
  | refl => exact .refl
  | tail _ hstep ih =>
    obtain ⟨moves, hstep⟩ := hstep
    exact ih.step (.save hstep)

theorem exists_leads_finish (c : Config) (bundler : Bundler) (js : List Job) (es : List EntryModule)
    (forceInlined : List String) (w : Workspace) :
    ∃ result w', (finish c bundler js (request c es forceInlined)).run w = (result, w') ∧
      Leads c bundler (.cleaning js es forceInlined [], w) (.done result, w') := by
  unfold finish
  rw [run_bind, Workspace.Action.run_bundle]
  rcases hbundle : (bundler (request c es forceInlined)).run w.disk with ⟨e | _, d₁⟩
  · exact ⟨_, _, rfl, .single (.notBundled hbundle)⟩
  · dsimp only [Except.mapError]
    have hleads : Leads c bundler (.cleaning js es forceInlined [], w) _ := .single (.bundle hbundle)
    obtain ⟨made, result, d₂, hsave, hsteps⟩ :=
      (report c js).manifest.exists_leads_save c.manifestPath d₁
    rw [run_bind, Workspace.Action.run_onDisk, hsave]
    have hsaves := hleads.trans (leads_save hsteps)
    cases result with
    | error e => exact ⟨_, _, rfl, hsaves.step (.notSaved _ js made e)⟩
    | ok => exact ⟨_, _, rfl, hsaves.step (.saved _ js made)⟩

end

/-- A build that is run goes through the steps of a build to the end. -/
theorem exists_leads_build (c : Config) (bundler : Bundler) (w : Workspace) :
    ∃ result w', (build c bundler).run w = (result, w') ∧
      Leads c bundler (.planning, w) (.done result, w') := by
  rw [build_eq_execute, run_bind, Workspace.Action.run_view]
  cases hplan : plan c w.disk with
  | error e => exact ⟨.error e, w, rfl, .single (.notPlanned w e)⟩
  | ok x =>
    obtain ⟨js, es⟩ := x
    have hplanned : Leads c bundler (.planning, w) (.writing js es [], w) := .single (.plan hplan)
    have hwriting := takes_writeEntries c bundler js es
    dsimp only [Except.mapError, execute]
    rw [run_bind, Workspace.Action.run_onDisk]
    rcases hwrite : (writeEntries es).run w.disk with ⟨e | _, d₁⟩
    · exact ⟨_, _, rfl, hplanned.trans (hwriting.error hwrite)⟩
    · have hreading := hplanned.trans (hwriting.ok hwrite)
      dsimp only [Except.mapError]
      rw [run_bind, Workspace.Action.run_view]
      cases hread : dependencies c.root d₁ with
      | error e => exact ⟨.error e, _, rfl, hreading.step (.notRead _ js es e)⟩
      | ok forceInlined =>
        have hcleaning := hreading.step (.read hread)
        dsimp only [Except.mapError]
        rw [run_bind, Workspace.Action.run_onDisk]
        rcases hclean : (clean c.outPath).run d₁ with ⟨e | _, d₂⟩
        · exact ⟨.error e, _, rfl, hcleaning.trans (takes_clean.error hclean)⟩
        · obtain ⟨result, w', hfinish, hfinishes⟩ :=
            exists_leads_finish c bundler js es forceInlined { w with disk := d₂ }
          exact ⟨result, w', hfinish, (hcleaning.trans (takes_clean.ok hclean)).trans hfinishes⟩

end Build

end JobBundler
