import JobBundler.Proofs.Build.Frames

/-!
# What a build overwrites and removes
-/

namespace JobBundler

open Disk

variable {d d' : Disk}

/-! ## Plans -/

theorem discover_ne_nil {c : Config} {found : Discovery} (h : discover c d = .ok found) :
    found.candidates ≠ [] := by
  unfold discover at h
  obtain ⟨paths, -, h⟩ := Except.bind_eq_ok_iff.1 h
  split at h
  · cases h
  · obtain ⟨texts, -, h⟩ := Except.bind_eq_ok_iff.1 h
    obtain ⟨sources, -, h⟩ := Except.bind_eq_ok_iff.1 h
    dsimp only at h
    split at h
    · cases h
    · rename_i hne
      cases h
      simpa using hne

namespace Build

theorem plan_ne_nil {c : Config} {js : List Job} {es : List EntryModule}
    (h : plan c d = .ok (js, es)) : es ≠ [] := by
  obtain ⟨found, hd, hv, hes⟩ := plan_eq_ok h
  exact planEntries_ne_nil hes (validate_ne_nil hv (discover_ne_nil hd))

/-! ## Writing the entries -/

theorem run_results_eq_ok {rs : List (Except BuildError Unit)}
    (h : (rs.forM fun r => (ExceptT.mk (pure r) : Disk.Action BuildError Unit)).run d =
      (.ok (), d')) : (∀ r ∈ rs, r = .ok ()) ∧ d' = d := by
  induction rs with
  | nil => cases h; exact ⟨by simp, rfl⟩
  | cons r rs ih =>
    obtain ⟨_, d₁, h₁, h⟩ := run_bind_eq_ok_iff.1 h
    cases h₁
    obtain ⟨hr, hd⟩ := ih h
    exact ⟨by simpa using hr, hd⟩

theorem run_forM_writeEntry {es : List EntryModule} {rs : List (Except BuildError Unit)}
    (h : (es.mapM fun e => (writeEntry e).attempt : Disk.Action BuildError _).run d = (.ok rs, d'))
    (hok : ∀ r ∈ rs, r = .ok ()) : (es.forM writeEntry).run d = (.ok (), d') := by
  induction es generalizing d rs with
  | nil => cases h; rfl
  | cons e es ih =>
    rw [List.mapM_cons] at h
    obtain ⟨r, d₁, hr, h⟩ := run_bind_eq_ok_iff.1 h
    obtain ⟨rs', d₂, hrs, h⟩ := run_bind_eq_ok_iff.1 h
    cases h
    rw [Action.run_attempt] at hr
    cases hr
    refine run_bind_eq_ok_iff.2 ⟨(), _, ?_, ih hrs fun r hr => hok r (List.mem_cons_of_mem _ hr)⟩
    exact Prod.ext (hok _ List.mem_cons_self) rfl

/-- When no entry fails, it is as if they were written one by one. -/
theorem run_writeEntries_eq_ok {es : List EntryModule}
    (h : (writeEntries es).run d = (.ok (), d')) : (es.forM writeEntry).run d = (.ok (), d') := by
  unfold writeEntries at h
  obtain ⟨rs, d₁, hrs, h⟩ := run_bind_eq_ok_iff.1 h
  obtain ⟨hok, rfl⟩ := run_results_eq_ok h
  exact run_forM_writeEntry hrs hok

theorem writeEntry_eq_ok {e : EntryModule} (h : (writeEntry e).run d = (.ok (), d')) :
    ∃ d₁, (∀ l, At d.workingDir l Makes d d₁) ∧ Disk.write e.path (.text e.text) d₁ = .ok d' := by
  unfold writeEntry at h
  split at h
  · rename_i parent _
    obtain ⟨_, d₁, h₁, h⟩ := run_bind_eq_ok_iff.1 h
    rw [Action.run_orFail_eq_ok_iff] at h₁ h
    refine ⟨d₁, fun l => ?_, Action.run_change_eq_ok_iff.1 h⟩
    have hm : At d.workingDir l Makes d ((Disk.makeDirs parent).run d).2 :=
      keeps_makeDirs parent d
    rw [h₁] at hm
    exact hm
  · rw [Action.run_orFail_eq_ok_iff] at h
    exact ⟨d, fun l hwd => ⟨hwd, .inl rfl⟩, Action.run_change_eq_ok_iff.1 h⟩

theorem holds_of_writeEntry {e : EntryModule} (h : (writeEntry e).run d = (.ok (), d')) :
    d'.workingDir = d.workingDir ∧
      Holds (.text e.text) (d'.node? (destination d.workingDir e.path)) := by
  obtain ⟨d₁, hm, hw⟩ := writeEntry_eq_ok h
  obtain ⟨hwd₁, -⟩ := hm [] rfl
  obtain ⟨hwd, hh⟩ := holds_of_write hw
  rw [hwd₁] at hwd hh
  exact ⟨hwd, hh⟩

/-- Entries of different locations all are on the disk when all are written. -/
theorem holds_of_writeEntries {es : List EntryModule} {e : EntryModule}
    (h : (es.forM writeEntry).run d = (.ok (), d')) (he : e ∈ es)
    (hne : ∀ e' ∈ es, destination d.workingDir e'.path = destination d.workingDir e.path →
      e'.text = e.text) :
    Holds (.text e.text) (d'.node? (destination d.workingDir e.path)) := by
  induction es generalizing d with
  | nil => cases he
  | cons e₀ es ih =>
    obtain ⟨_, d₁, h₁, hrest⟩ := run_bind_eq_ok_iff.1 h
    obtain ⟨hwd, hh⟩ := holds_of_writeEntry h₁
    rw [← hwd] at hne ⊢
    rcases List.mem_cons.1 he with rfl | he
    · have hk : Keeps (At d₁.workingDir (destination d₁.workingDir e.path)
          (Retains (.text e.text))) (es.forM writeEntry) :=
        .forM (At.isFrame Retains.isFrame) fun e' he' =>
          keeps_writeEntry fun hl => congrArg _ (hne e' (List.mem_cons_of_mem _ he') hl)
      have hd := (hk d₁ rfl).2
      rw [hrest] at hd
      rw [← hwd] at hh
      exact hd hh
    · exact ih hrest he fun e' he' => hne e' (List.mem_cons_of_mem _ he')

theorem keeps_writeEntry_staysDirectory {wd l : Location} (e : EntryModule) :
    Keeps (At wd l StaysDirectory) (writeEntry e) :=
  keeps_writeEntry_of (At.isFrame StaysDirectory.isFrame)
    (fun p _ d => (keeps_makeDirs p d).mono fun _ _ => Makes.staysDirectory)
    fun _ _ => at_write_staysDirectory

/-- An entry that is written lies in the output directory, which is there from then on. -/
theorem reaches_outPath {c : Config} {files : List SourceFile} {js : List Job}
    {es : List EntryModule} (hes : planEntries c files js = .ok es) (hne : es ≠ [])
    (h : (es.forM writeEntry).run d = (.ok (), d')) :
    Reaches d' c.outPath ∧ Fits (c.outPath / ".ej" / "entries").text := by
  obtain ⟨e, es', rfl⟩ := List.exists_cons_of_ne_nil hne
  obtain ⟨_, d₂, h₂, hrest⟩ := run_bind_eq_ok_iff.1 h
  obtain ⟨d₁, -, hw⟩ := writeEntry_eq_ok h₂
  obtain ⟨-, -, ⟨-, hloc⟩, -⟩ := write_eq_ok hw
  obtain ⟨hnul, -, hsize, hwalk⟩ := locate_eq_ok_iff.1 hloc
  obtain ⟨dir, hdir, name, hname, -, hpath⟩ := exists_of_mem_planEntries hes List.mem_cons_self
  have hstays : ∀ l, At d₁.workingDir l StaysDirectory d₁ d' := by
    intro l
    have hk : Keeps (At d₁.workingDir l StaysDirectory) (es'.forM writeEntry) :=
      .forM (At.isFrame StaysDirectory.isFrame) fun e' _ => keeps_writeEntry_staysDirectory e'
    have hd := hk d₂
    rw [hrest] at hd
    exact IsFrame.trans (At.isFrame StaysDirectory.isFrame) (at_write_staysDirectory hw) hd
  have hfile := isStep_entryFile hname
  have hej : (Path.Component.normal ".ej").IsStep := by decide
  have hentries : (Path.Component.normal "entries").IsStep := by decide
  rw [hpath] at hnul hsize hwalk
  constructor
  · have hr := ((reaches_of_walk_div hfile hwalk).of_div (isStep_dir hdir)).of_div hentries
    refine (hr.of_div hej).of_directories (hstays [] rfl).1 fun m _ => (hstays m rfl).2
  · exact fits_of_div (isStep_dir hdir) (fits_of_div hfile ⟨hnul, hsize⟩)

/-! ## Removing the old artifacts -/

theorem run_removeStale (p : Path) (d : Disk) :
    (removeStale p).run d =
      match (removeAll p).run d with
      | (.ok _, d') | (.error .notFound, d') => (.ok (), d')
      | (.error e, d') => (.error (.file .remove p e), d') := by
  unfold removeStale
  rw [Action.run_orFail, Action.run_unlessMissing]
  rcases (removeAll p).run d with ⟨e | _, d'⟩
  · cases e <;> rfl
  · rfl

/-- A directory that counts as removed was removed with all that was in it, or there was none. -/
theorem removeStale_eq_ok {p : Path} (h : (removeStale p).run d = (.ok (), d')) :
    (d.nodeAt p = .error .notFound ∧ d' = d) ∨ (removeAll p).run d = (.ok (), d') := by
  rw [run_removeStale] at h
  rcases hrun : (removeAll p).run d with ⟨e | _, d₁⟩
  · rw [hrun] at h
    cases e <;> cases h
    exact .inl (removeAll_eq_notFound hrun)
  · rw [hrun] at h
    cases h
    exact .inr rfl

/-- When a directory cannot be removed, some of what was in it may be. -/
theorem removeStale_eq_error {p : Path} {e : BuildError} (h : (removeStale p).run d = (.error e, d')) :
    Removes p d d' ∧ ∃ cause, e = .file .remove p cause := by
  have hremoves := removes_removeAll p d
  rw [run_removeStale] at h
  rcases hrun : (removeAll p).run d with ⟨cause | _, d₁⟩
  · rw [hrun] at h hremoves
    cases cause <;> cases h
    all_goals exact ⟨hremoves, _, rfl⟩
  · rw [hrun] at h
    cases h

theorem removes_removeStale {p : Path} {r : Except BuildError Unit} (h : (removeStale p).run d = (r, d')) :
    Removes p d d' := by
  have hkeeps : Keeps (Removes p) (removeStale p) := keeps_removeStale_of fun _ _ hremoves => hremoves
  have hremoves := hkeeps d
  rwa [h] at hremoves

/-- When a directory counts as removed, its path leads to nothing any more. -/
theorem nodeAt_of_removeStale {p : Path} (h : (removeStale p).run d = (.ok (), d')) :
    d'.nodeAt p = .error .notFound := by
  rcases removeStale_eq_ok h with ⟨hmissing, rfl⟩ | hrun
  · exact hmissing
  · exact (removeAll_eq_ok hrun).2.2

/-- What a path to a directory leads to is gone, with all that is below. -/
theorem none_of_removeStale {p : Path} {m l : Location}
    (h : (removeStale p).run d = (.ok (), d')) (hm : d.locate p = .ok m) (hml : m <+: l)
    (hdir : m ≠ l → d.node? m = some .directory) {f : File} (hl : d.node? l = some (.file f)) :
    d'.node? l = none := by
  rcases removeStale_eq_ok h with ⟨hnone, -⟩ | hrun
  · by_cases hne : m = l
    · exact absurd hnone (nodeAt_ne_notFound hm (hne ▸ hl))
    · exact absurd hnone (nodeAt_ne_notFound hm (hdir hne))
  · obtain ⟨hn, hgone, -⟩ := removeAll_eq_ok hrun
    obtain rfl : m = destination d.workingDir p := locate_eq_ok hm
    refine hgone l hml ?_
    rintro rfl
    rw [(nodeAt_eq_ok hn).2] at hl
    cases hl

/-- Where nothing is, nothing is after a removal. -/
theorem none_removeStale {p : Path} {l : Location} (h : (removeStale p).run d = (.ok (), d'))
    (hl : d.node? l = none) : d'.node? l = none := by
  simpa only [hl, or_self] using (removes_removeStale h).node? l

theorem workingDir_removeStale {p : Path} (h : (removeStale p).run d = (.ok (), d')) :
    d'.workingDir = d.workingDir :=
  (removes_removeStale h).workingDir

theorem clean_eq_ok_iff {p : Path} :
    (clean p).run d = (.ok (), d') ↔
      ∃ d₁, (removeStale (p / "jobs")).run d = (.ok (), d₁) ∧
        (removeStale (p / "groups")).run d₁ = (.ok (), d') := by
  show ((removeStale (p / "jobs") >>= fun _ => removeStale (p / "groups") >>= fun _ => pure ()).run d
    = _) ↔ _
  rw [bind_pure_unit, run_bind_eq_ok_iff]
  constructor
  · rintro ⟨_, d₁, h, h'⟩; exact ⟨d₁, h, h'⟩
  · rintro ⟨d₁, h, h'⟩; exact ⟨(), d₁, h, h'⟩

/-- The directories of artifacts below an output directory are removed, unless the way to that
leads through the first of them. -/
theorem none_of_clean {out : Path} {l : Location} (h : (clean out).run d = (.ok (), d'))
    (hr : Reaches d out) (hf : ∀ dir ∈ artifactDirs, Fits (out / dir).text)
    (hway : ∀ m ∈ way d.workingDir out, ¬destination d.workingDir (out / "jobs") <+: m)
    (htree : ∀ m, m <+: l → m ≠ l → d.node? m = some .directory) {f : File}
    (hl : d.node? l = some (.file f)) {dir : String} (hdir : dir ∈ artifactDirs)
    (hbelow : destination d.workingDir (out / dir) <+: l) : d'.node? l = none := by
  obtain ⟨d₁, hjobs, hgroups⟩ := clean_eq_ok_iff.1 h
  have hloc (dir : String) (hdir : dir ∈ artifactDirs) {d : Disk} (hr : Reaches d out) :
      d.locate (out / dir) = .ok (destination d.workingDir (out / dir)) :=
    locate_div (isStep_dir hdir) (by
      rcases mem_artifactDirs.1 hdir with rfl | rfl <;> decide) (hf dir hdir) hr
  by_cases hj : destination d.workingDir (out / "jobs") <+: l
  · exact none_removeStale hgroups <| none_of_removeStale hjobs (hloc "jobs" (by decide) hr) hj
      (htree _ hj) hl
  · obtain rfl : dir = "groups" := by
      rcases mem_artifactDirs.1 hdir with rfl | rfl
      · exact absurd hbelow hj
      · rfl
    have hwd := workingDir_removeStale hjobs
    have hsame (m : Location) (hm : ¬destination d.workingDir (out / "jobs") <+: m) :
        d₁.node? m = d.node? m :=
      ((removes_removeStale hjobs).at_of_not_below Unchanged.isFrame hm rfl).2
    have hr₁ : Reaches d₁ out :=
      hr.of_directories hwd fun m hm hd => (hsame m (hway m hm)).trans hd
    refine none_of_removeStale hgroups (hloc "groups" (by decide) hr₁) (hwd ▸ hbelow) ?_
      ((hsame l hj).trans hl)
    rw [hwd]
    exact fun hne => (hsame _ fun hp => hj (hp.trans hbelow)).trans (htree _ hbelow hne)

end Build

end JobBundler
