import JobBundler.Entry.Plan
import JobBundler.Proofs.Index
import JobBundler.Proofs.Path.Place
import Mathlib.Data.List.Nodup

/-!
# Where entry modules are

Every entry module that is planned lies in a directory `jobs` or `groups` below the scratch
directory, in a file that is named by the job or the group (`exists_of_mem_planEntries`).
-/

namespace JobBundler

namespace Config

theorem isAbsolute_outPath (c : Config) :
    c.outPath.isAbsolute = (c.root.isAbsolute || c.outDir.isAbsolute) :=
  Path.isAbsolute_join

theorem place_outPath (c : Config) (start : List String) :
    c.outPath.place start = c.outDir.place (c.root.place start) :=
  Path.place_join ..

theorem place_scratchDir (c : Config) (start : List String) :
    c.scratchDir.place start = "entries" :: ".ej" :: c.outPath.place start := by
  unfold scratchDir
  rw [Path.div_eq_join, Path.div_eq_join, Path.place_join, Path.place_join]
  rfl

/-- The directory of the entries of jobs or groups starts where the output directory does, and leads
up as far. -/
theorem isAbsolute_ups_scratchDir (c : Config) (dir : String)
    (h : (Path.Component.normal dir).IsStep) : (c.scratchDir / dir).isAbsolute = c.outPath.isAbsolute ∧
      (c.scratchDir / dir).ups = c.outPath.ups := by
  have hej : (Path.Component.normal ".ej").IsStep := by decide
  have hentries : (Path.Component.normal "entries").IsStep := by decide
  constructor
  · rw [Path.isAbsolute_div h, scratchDir, Path.isAbsolute_div hentries, Path.isAbsolute_div hej]
  · rw [Path.ups_div h, scratchDir, Path.ups_div hentries, Path.ups_div hej]

end Config

theorem exists_of_mem_mapM {ε α β : Type} {f : α → Except ε β} {as : List α} {bs : List β}
    (h : as.mapM f = .ok bs) {b : β} (hb : b ∈ bs) : ∃ a ∈ as, f a = .ok b := by
  induction as generalizing bs with
  | nil =>
    rw [List.mapM_nil] at h
    cases h
    cases hb
  | cons a as ih =>
    rw [List.mapM_cons] at h
    obtain ⟨b', hb', h⟩ := Except.bind_eq_ok_iff.1 h
    obtain ⟨bs', hbs', h⟩ := Except.bind_eq_ok_iff.1 h
    cases h
    rcases List.mem_cons.1 hb with rfl | hb
    · exact ⟨a, List.mem_cons_self, hb'⟩
    · obtain ⟨a', ha', h'⟩ := ih hbs' hb
      exact ⟨a', List.mem_cons_of_mem _ ha', h'⟩

theorem Name.slash_notMem {text : String} (h : isValid text) : '/' ∉ text.toList := by
  intro hs
  simp only [isValid, Bool.and_eq_true, List.all_eq_true] at h
  exact absurd (h.2 _ hs) (by decide)

theorem Job.entry_eq_ok {j : Job} {source : SourceFile} {dir : Path} {strategy : ReferenceStrategy}
    {e : EntryModule} (h : j.entry source dir strategy = .ok e) :
    e.key = jobEntryKey j.id.text ∧ e.path = dir / (j.id.text ++ entrySuffix) := by
  unfold entry at h
  obtain ⟨d, -, h⟩ := Except.bind_eq_ok_iff.1 h
  dsimp only at h
  split at h
  · cases h
  · cases h
    exact ⟨rfl, rfl⟩

/-- A planned entry has the key of a job or a group, and its file is named alike. -/
theorem exists_of_mem_planEntries {c : Config} {files : List SourceFile} {js : List Job}
    {es : List EntryModule} (h : planEntries c files js = .ok es) {e : EntryModule} (he : e ∈ es) :
    ∃ dir ∈ ["jobs", "groups"], ∃ name, Name.isValid name ∧ e.key = s!"{dir}/{name}" ∧
      e.path = c.scratchDir / dir / (name ++ entrySuffix) := by
  unfold planEntries at h
  obtain ⟨single, hs, h⟩ := Except.bind_eq_ok_iff.1 h
  cases h
  obtain ⟨⟨k, e'⟩, hk, rfl⟩ := List.mem_map.1 he
  obtain ⟨e, hm, heq⟩ := List.mem_map.1 (Index.mem_of_mem_toList_ofList hk)
  cases heq
  rcases List.mem_append.1 hm with hm | hm
  · obtain ⟨j, -, hj⟩ := exists_of_mem_mapM hs hm
    unfold plannedJob at hj
    split at hj
    · cases hj
    · obtain ⟨hk, hp⟩ := Job.entry_eq_ok hj
      exact ⟨"jobs", by simp, j.id.text, j.id.valid, hk, hp⟩
  · obtain ⟨⟨name, members⟩, -, rfl⟩ := List.mem_map.1 hm
    exact ⟨"groups", by simp, name.text, name.valid, rfl, rfl⟩

/-! ## All entries of a plan -/

theorem mem_groups_iff {js members : List Job} {name : GroupName} :
    (name, members) ∈ (groups js).toList ↔
      members = js.filter (·.group == some name) ∧ ∃ j ∈ js, j.group = some name := by
  have hgroups : groups js = js.foldl (Index.pushBy Job.group) ∅ := by
    unfold groups
    congr 1
    funext x j
    unfold Index.pushBy
    cases j.group <;> rfl
  rw [hgroups, Index.mem_foldl_pushBy_iff]

theorem groups_ne_nil {js : List Job} {j : Job} (hj : j ∈ js) (hg : j.group ≠ none) :
    (groups js).toList ≠ [] := by
  obtain ⟨name, hname⟩ := Option.ne_none_iff_exists'.1 hg
  exact List.ne_nil_of_mem (mem_groups_iff.2 ⟨rfl, j, hj, hname⟩)

/-- Jobs need an entry. -/
theorem planEntries_ne_nil {c : Config} {files : List SourceFile} {js : List Job}
    {es : List EntryModule} (h : planEntries c files js = .ok es) (hjs : js ≠ []) : es ≠ [] := by
  unfold planEntries at h
  obtain ⟨single, hs, h⟩ := Except.bind_eq_ok_iff.1 h
  cases h
  obtain ⟨j, js', rfl⟩ := List.exists_cons_of_ne_nil hjs
  have hne : single ++ (groups (j :: js')).toList.map (fun e =>
      e.1.entry e.2 (c.scratchDir / "groups")) ≠ [] := by
    by_cases hg : j.group = none
    · refine List.append_ne_nil_of_left_ne_nil ?_ _
      rintro rfl
      rw [List.filter_cons_of_pos (by simp [hg]), List.mapM_cons] at hs
      obtain ⟨_, -, hs⟩ := Except.bind_eq_ok_iff.1 hs
      obtain ⟨_, -, hs⟩ := Except.bind_eq_ok_iff.1 hs
      cases hs
    · refine List.append_ne_nil_of_right_ne_nil _ ?_
      simpa using groups_ne_nil List.mem_cons_self hg
  simpa [Index.values] using Index.ofList_ne_nil (by simpa using hne)

/-- The entries of a plan are in the order of their keys, each with its own. -/
theorem planEntries_ascending {c : Config} {files : List SourceFile} {js : List Job}
    {es : List EntryModule} (h : planEntries c files js = .ok es) :
    es.Pairwise fun e e' => e.key < e'.key := by
  unfold planEntries at h
  obtain ⟨single, -, h⟩ := Except.bind_eq_ok_iff.1 h
  cases h
  refine List.pairwise_map.2 (List.Pairwise.imp_of_mem ?_ (Index.ascending _))
  intro x y hx hy hxy
  obtain ⟨e, -, rfl⟩ := List.mem_map.1 (Index.mem_of_mem_toList_ofList hx)
  obtain ⟨e', -, rfl⟩ := List.mem_map.1 (Index.mem_of_mem_toList_ofList hy)
  exact hxy

theorem isStep_dir {dir : String} (h : dir ∈ ["jobs", "groups"]) :
    (Path.Component.normal dir).IsStep := by
  simp only [List.mem_cons, List.not_mem_nil, or_false] at h
  rcases h with rfl | rfl <;> decide

theorem isStep_entryFile {name : String} (h : Name.isValid name) :
    (Path.Component.normal (name ++ entrySuffix)).IsStep := by
  refine Path.Component.isStep_normal ?_ ?_
  · rw [String.toList_append, List.mem_append, not_or]
    exact ⟨Name.slash_notMem h, by decide⟩
  · have hl : entrySuffix.toList.length = 9 := by decide
    rw [String.toList_append, List.length_append]
    omega

/-- The location of a planned entry tells which one it is. -/
theorem eq_of_place_eq {c : Config} {files : List SourceFile} {js : List Job}
    {es : List EntryModule} (h : planEntries c files js = .ok es) {e e' : EntryModule}
    (he : e ∈ es) (he' : e' ∈ es) {start : List String}
    (hp : e.path.place start = e'.path.place start) : e = e' := by
  have hkey : e.key = e'.key := by
    obtain ⟨dir, hdir, name, hname, hk, hpath⟩ := exists_of_mem_planEntries h he
    obtain ⟨dir', hdir', name', hname', hk', hpath'⟩ := exists_of_mem_planEntries h he'
    rw [hpath, hpath', Path.place_div (isStep_entryFile hname), Path.place_div (isStep_dir hdir),
      Path.place_div (isStep_entryFile hname'), Path.place_div (isStep_dir hdir'), List.cons.injEq,
      List.cons.injEq, String.append_left_inj] at hp
    rw [hk, hk', hp.1, hp.2.1]
  have hnodup : (es.map (·.key)).Nodup :=
    List.pairwise_map.2 ((planEntries_ascending h).imp fun hlt => String.ne_of_lt hlt)
  exact List.inj_on_of_nodup_map hnodup he he' hkey

theorem Candidate.toJob?_isSome {mode : BuildMode} {root : Path} {c : Candidate}
    (h : c.problems mode root = []) : (c.toJob? mode).isSome := by
  simp only [problems, List.append_eq_nil_iff] at h
  obtain ⟨⟨hexp, hid⟩, hgroup⟩ := h
  have hexp : c.exported ≠ .notExported := fun he => by simp [he] at hexp
  have hid : JobId.parse c.id = .ok ⟨c.id, by simpa using hid⟩ :=
    JobId.parse_eq_ok_iff.2 rfl
  have hgroup : ∃ g, (c.groupIn? mode).mapM GroupName.parse = .ok g := by
    cases hg : c.groupIn? mode with
    | none => exact ⟨none, rfl⟩
    | some group =>
      rw [hg] at hgroup
      have hv : Name.isValid group := by simpa using hgroup
      have hparse : GroupName.parse group = .ok ⟨group, hv⟩ := dif_pos hv
      exact ⟨some ⟨group, hv⟩, congrArg (some <$> ·) hparse⟩
  obtain ⟨g, hg⟩ := hgroup
  unfold toJob?
  rw [hid, hg]
  cases he : c.exported with
  | notExported => exact absurd he hexp
  | byName => rfl
  | byDefault => rfl

theorem validate_ne_nil {mode : BuildMode} {root : Path} {cs : List Candidate} {js : List Job}
    (h : validate mode root cs = .ok js) (hcs : cs ≠ []) : js ≠ [] := by
  unfold validate at h
  split at h
  · rename_i hp
    cases h
    obtain ⟨c, cs, rfl⟩ := List.exists_cons_of_ne_nil hcs
    simp only [List.flatMap_cons, List.append_eq_nil_iff] at hp
    obtain ⟨j, hj⟩ := Option.isSome_iff_exists.1 (Candidate.toJob?_isSome hp.1.1)
    rw [List.filterMap_cons_some hj]
    exact List.cons_ne_nil _ _
  · cases h

end JobBundler
