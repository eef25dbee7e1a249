import JobBundler.Proofs.Entry.Plan
import Mathlib.Data.List.Forall2

/-!
# Every job has its entry

The jobs of a build are the marked classes of its files, one by one (`forall₂_jobs`). A plan has an
entry for each job without a group and one for each group, and no other one (`planEntries_covers`).
-/

namespace JobBundler

/-! ## Lists in step -/

theorem forall₂_of_mapM {ε α β : Type} {f : α → Except ε β} {as : List α} {bs : List β}
    (h : as.mapM f = .ok bs) : List.Forall₂ (fun a b => f a = .ok b) as bs := by
  induction as generalizing bs with
  | nil =>
    rw [List.mapM_nil] at h
    cases h
    exact .nil
  | cons a as ih =>
    rw [List.mapM_cons] at h
    obtain ⟨b, hb, h⟩ := Except.bind_eq_ok_iff.1 h
    obtain ⟨bs', hbs, h⟩ := Except.bind_eq_ok_iff.1 h
    cases h
    exact .cons hb (ih hbs)

/-- What is left of two lists in step when the same places are left out of both. -/
theorem forall₂_filterMap {α β γ : Type} {R : α → β → Prop} {S : α → γ → Prop} {p : α → Bool}
    {f : β → Option γ} {as : List α} {bs : List β} (h : List.Forall₂ R as bs)
    (hstep : ∀ a, ∀ b ∈ bs, R a b →
      (f b = none → p a = false) ∧ ∀ c, f b = some c → p a ∧ S a c) :
    List.Forall₂ S (as.filter p) (bs.filterMap f) := by
  induction h with
  | nil => exact .nil
  | @cons a b as bs hab _ ih =>
    have ih := ih fun a b hb => hstep a b (List.mem_cons_of_mem _ hb)
    obtain ⟨hnone, hsome⟩ := hstep a b List.mem_cons_self hab
    cases hb : f b with
    | none =>
      rw [List.filterMap_cons_none hb, List.filter_cons_of_neg (by simp [hnone hb])]
      exact ih
    | some c =>
      obtain ⟨hp, hs⟩ := hsome c hb
      rw [List.filterMap_cons_some hb, List.filter_cons_of_pos hp]
      exact .cons hs ih

theorem exists_of_mem_left {α β : Type} {R : α → β → Prop} {as : List α} {bs : List β}
    (h : List.Forall₂ R as bs) {a : α} (ha : a ∈ as) : ∃ b ∈ bs, R a b := by
  induction h with
  | nil => cases ha
  | cons hab _ ih =>
    rcases List.mem_cons.1 ha with rfl | ha
    · exact ⟨_, List.mem_cons_self, hab⟩
    · obtain ⟨b, hb, h⟩ := ih ha
      exact ⟨b, List.mem_cons_of_mem _ hb, h⟩

theorem map_eq_of_forall₂ {α β γ : Type} {R : α → β → Prop} {f : α → γ} {g : β → γ} {as : List α}
    {bs : List β} (h : List.Forall₂ R as bs) (hR : ∀ a b, R a b → f a = g b) :
    as.map f = bs.map g := by
  induction h with
  | nil => rfl
  | cons hab _ ih => rw [List.map_cons, List.map_cons, hR _ _ hab, ih]

theorem forall₂_flatten {α β γ : Type} {R : α → List β → Prop} {S : γ → β → Prop} {g : α → List γ}
    {as : List α} {bss : List (List β)} (h : List.Forall₂ R as bss)
    (hR : ∀ a bs, R a bs → List.Forall₂ S (g a) bs) :
    List.Forall₂ S (as.flatMap g) bss.flatten := by
  induction h with
  | nil => exact .nil
  | cons hab _ ih => exact List.rel_append (hR _ _ hab) ih

/-! ## Marked classes -/

/-- The classes of the files that carry the job decorator, in order, each with its file. -/
def jobClasses (config : Config) (files : List SourceFile) : List (SourceFile × ClassDecl) :=
  files.flatMap fun f =>
    (f.outline.classes.filter (·.decorators.any (·.name == config.jobDecorator))).map (f, ·)

/-- The id of a marked class: the last one that is given to the decorator, or the name of the class. -/
def jobIdOf (config : Config) (d : ClassDecl) : Option String :=
  (Decorator.strings d.decorators config.jobDecorator).getLast?.or d.name

/-- The group of a marked class in a build. -/
def groupOf (config : Config) (d : ClassDecl) : Option String :=
  match config.mode with
  | .perJob => none
  | .grouped => (Decorator.strings d.decorators config.groupDecorator).getLast?

/-- The candidate stands for the class of the file. -/
structure Candidate.IsOf (config : Config) (f : SourceFile) (d : ClassDecl) (cand : Candidate) : Prop where
  sourceFile : cand.sourceFile = f.path
  className : cand.className = d.name
  exported : cand.exported = d.exported
  id : some cand.id = jobIdOf config d
  group : cand.groupIn? config.mode = groupOf config d

/-- The job stands for the class of the file. -/
structure Job.IsOf (config : Config) (f : SourceFile) (d : ClassDecl) (j : Job) : Prop where
  sourceFile : j.sourceFile = f.path
  className : j.className = d.name
  exported : j.exported = d.exported
  isExported : d.exported ≠ .notExported
  id : some j.id.text = jobIdOf config d
  group : j.group.map (·.text) = groupOf config d

theorem Decorator.any_of_mem_strings {ds : List Decorator} {name id : String}
    (h : id ∈ strings ds name) : ds.any (·.name == name) := by
  obtain ⟨d, hd, -⟩ := List.mem_filterMap.1 h
  obtain ⟨hd, hname⟩ := List.mem_filter.1 hd
  exact List.any_eq_true.2 ⟨d, hd, hname⟩

theorem jobMarker?_isSome {ds : List Decorator} {name : String} :
    (jobMarker? ds name).isSome = ds.any (·.name == name) := by
  unfold jobMarker?
  split
  · rename_i hid
    rw [Decorator.any_of_mem_strings (List.mem_of_getLast? hid)]
    rfl
  · split
    · rename_i h
      exact h.symm
    · rename_i h
      exact (Bool.eq_false_iff.2 h).symm

theorem explicitId?_of_jobMarker? {ds : List Decorator} {name : String} {m : JobMarker}
    (h : jobMarker? ds name = some m) : m.explicitId? = (Decorator.strings ds name).getLast? := by
  unfold jobMarker? at h
  split at h
  · rename_i hid
    cases h
    exact hid.symm
  · rename_i hid
    split at h <;> cases h
    exact hid.symm

namespace Candidate

variable {config : Config} {f : SourceFile} {d : ClassDecl}

/-- A class has a candidate exactly if it is marked. -/
theorem of_ofClass? {o : Option Candidate} (h : ofClass? f.path f.text config d = .ok o) :
    (o = none → d.decorators.any (·.name == config.jobDecorator) = false) ∧
      ∀ cand, o = some cand →
        d.decorators.any (·.name == config.jobDecorator) ∧ cand.IsOf config f d := by
  unfold ofClass? at h
  rw [← jobMarker?_isSome]
  split at h
  · rename_i hm
    cases h
    rw [hm]
    exact ⟨fun _ => rfl, by rintro _ ⟨⟩⟩
  · rename_i m hm
    split at h
    · rename_i id hid
      cases h
      rw [explicitId?_of_jobMarker? hm] at hid
      refine ⟨by rintro ⟨⟩, ?_⟩
      rintro _ ⟨⟩
      refine ⟨by rw [hm]; rfl, rfl, rfl, rfl, hid.symm, ?_⟩
      unfold groupIn? groupOf
      rfl
    · cases h

theorem forall₂_of_ofSource {cands : List Candidate} (h : ofSource config f = .ok cands) :
    List.Forall₂ (IsOf config f)
      (f.outline.classes.filter (·.decorators.any (·.name == config.jobDecorator))) cands := by
  unfold ofSource at h
  obtain ⟨os, hos, h⟩ := Except.bind_eq_ok_iff.1 h
  cases h
  exact forall₂_filterMap (forall₂_of_mapM hos) fun d o _ hd => of_ofClass? hd

end Candidate

variable {config : Config} {files : List SourceFile} {css : List (List Candidate)} {js : List Job}

/-- The candidates of the files are their marked classes. -/
theorem forall₂_candidates (h : files.mapM (Candidate.ofSource config) = .ok css) :
    List.Forall₂ (fun p cand => cand.IsOf config p.1 p.2) (jobClasses config files) css.flatten := by
  refine forall₂_flatten (forall₂_of_mapM h) fun f cands hf => ?_
  rw [List.forall₂_map_left_iff]
  exact Candidate.forall₂_of_ofSource hf

theorem Candidate.toJob?_eq_some {mode : BuildMode} {cand : Candidate} {j : Job}
    (h : cand.toJob? mode = some j) : ∃ id group, cand.exported ≠ .notExported ∧
      JobId.parse cand.id = .ok id ∧ (cand.groupIn? mode).mapM GroupName.parse = .ok group ∧
      j = ⟨id, cand.sourceFile, cand.className, cand.exported, group⟩ := by
  unfold toJob? at h
  split at h
  · cases h
  · rename_i hid hgroup hexported
    cases h
    exact ⟨_, _, hexported, hid, hgroup, rfl⟩
  · cases h

theorem map_text_of_mapM_parse {text : Option String} {name : Option GroupName}
    (h : text.mapM GroupName.parse = .ok name) : name.map (·.text) = text := by
  cases text with
  | none =>
    cases h
    rfl
  | some text =>
    cases hparse : GroupName.parse text with
    | error e =>
      rw [Option.mapM_some, hparse] at h
      cases h
    | ok name =>
      rw [Option.mapM_some, hparse] at h
      cases h
      rw [Option.map_some, GroupName.parse_eq_ok_iff.1 hparse]

theorem Candidate.IsOf.of_toJob? {f : SourceFile} {d : ClassDecl} {cand : Candidate} {j : Job}
    (h : cand.IsOf config f d) (hj : cand.toJob? config.mode = some j) : j.IsOf config f d := by
  obtain ⟨id, group, hexported, hid, hgroup, rfl⟩ := toJob?_eq_some hj
  refine ⟨h.sourceFile, h.className, h.exported, h.exported ▸ hexported, ?_, ?_⟩
  · rw [← h.id, JobId.parse_eq_ok_iff.1 hid]
  · rw [← h.group]
    exact map_text_of_mapM_parse hgroup

theorem problems_eq_nil_of_validate {cs : List Candidate} (h : validate config.mode config.root cs = .ok js) :
    (∀ cand ∈ cs, cand.problems config.mode config.root = []) ∧ duplicates config.root cs = [] ∧
      js = cs.filterMap (Candidate.toJob? config.mode) := by
  unfold validate at h
  split at h
  · rename_i hp
    cases h
    obtain ⟨hproblems, hdup⟩ := List.append_eq_nil_iff.1 hp
    exact ⟨List.flatMap_eq_nil_iff.1 hproblems, hdup, rfl⟩
  · cases h

/-- The jobs of a build are the marked classes of its files, one by one. -/
theorem forall₂_jobs (h : files.mapM (Candidate.ofSource config) = .ok css)
    (hjs : validate config.mode config.root css.flatten = .ok js) :
    List.Forall₂ (fun p j => j.IsOf config p.1 p.2) (jobClasses config files) js := by
  obtain ⟨hproblems, -, rfl⟩ := problems_eq_nil_of_validate hjs
  have hfilter : (jobClasses config files).filter (fun _ => true) = jobClasses config files :=
    List.filter_true ..
  rw [← hfilter]
  refine forall₂_filterMap (forall₂_candidates h) fun p cand hcand hof => ?_
  obtain ⟨j, hj⟩ := Option.isSome_iff_exists.1 (Candidate.toJob?_isSome (hproblems cand hcand))
  rw [hj]
  refine ⟨by rintro ⟨⟩, ?_⟩
  rintro _ ⟨⟩
  exact ⟨rfl, hof.of_toJob? hj⟩

theorem nodup_of_duplicates {root : Path} {cs : List Candidate} (h : duplicates root cs = []) :
    (cs.map (·.id)).Nodup := by
  refine Index.nodup_map_of_groupBy ?_
  rintro ⟨id, sites⟩ he
  have hnone := List.filterMap_eq_nil_iff.1 h _ he
  dsimp only at hnone
  by_contra hlong
  rw [if_pos (Nat.lt_of_not_le hlong)] at hnone
  cases hnone

theorem ids_sublist (mode : BuildMode) (cs : List Candidate) :
    ((cs.filterMap (Candidate.toJob? mode)).map (·.id.text)).Sublist (cs.map (·.id)) := by
  induction cs with
  | nil => exact .slnil
  | cons cand cs ih =>
    cases hj : cand.toJob? mode with
    | none =>
      rw [List.filterMap_cons_none hj]
      exact ih.cons cand.id
    | some j =>
      obtain ⟨id, group, -, hid, -, rfl⟩ := Candidate.toJob?_eq_some hj
      rw [List.filterMap_cons_some hj, List.map_cons, List.map_cons, JobId.parse_eq_ok_iff.1 hid]
      exact ih.cons_cons cand.id

/-- No two jobs of a build have the same id. -/
theorem nodup_ids {cs : List Candidate} (h : validate config.mode config.root cs = .ok js) :
    (js.map (·.id)).Nodup := by
  obtain ⟨-, hdup, rfl⟩ := problems_eq_nil_of_validate h
  refine .of_map JobId.text ?_
  rw [List.map_map]
  exact (ids_sublist config.mode cs).nodup (nodup_of_duplicates hdup)

/-! ## Entries -/

/-- The file of a class is found by its path. -/
theorem findSource?_eq_some (hpaths : files.Pairwise fun f g => ¬f.path.same g.path) {f : SourceFile}
    (hf : f ∈ files) : findSource? files f.path = some f := by
  induction hpaths with
  | nil => cases hf
  | @cons g files hhead _ ih =>
    unfold findSource?
    rcases List.mem_cons.1 hf with rfl | hf
    · exact List.find?_cons_of_pos (by simp [Path.same])
    · refine (List.find?_cons_of_neg ?_).trans (ih hf)
      exact hhead f hf

theorem jobEntryKey_inj {id id' : String} : jobEntryKey id = jobEntryKey id' ↔ id = id' := by
  simp [jobEntryKey, toString, String.append_right_inj]

theorem groupEntryKey_inj {name name' : String} :
    groupEntryKey name = groupEntryKey name' ↔ name = name' := by
  simp [groupEntryKey, toString, String.append_right_inj]

theorem jobEntryKey_ne_groupEntryKey (id name : String) : jobEntryKey id ≠ groupEntryKey name := by
  intro h
  have hhead := congrArg (·.toList.head?) h
  simp [jobEntryKey, groupEntryKey, toString] at hhead

theorem plannedJob_eq_ok {j : Job} {e : EntryModule} (h : plannedJob config files j = .ok e) :
    e.key = jobEntryKey j.id.text := by
  unfold plannedJob at h
  split at h
  · cases h
  · exact (Job.entry_eq_ok h).1

/-- The entries that a plan is put together from. -/
def entriesOf (config : Config) (js : List Job) (single : List EntryModule) : List EntryModule :=
  single ++ (groups js).toList.map fun (name, members) =>
    name.entry members (config.scratchDir / "groups")

theorem nodup_keys_entriesOf (hids : (js.map (·.id)).Nodup) {single : List EntryModule}
    (h : (js.filter (·.group.isNone)).mapM (plannedJob config files) = .ok single) :
    ((entriesOf config js single).map (·.key)).Nodup := by
  have hsingle : single.map (·.key) =
      ((js.filter (·.group.isNone)).map (·.id)).map (jobEntryKey ·.text) := by
    rw [List.map_map]
    exact (map_eq_of_forall₂ (forall₂_of_mapM h) fun j e he => (plannedJob_eq_ok he).symm).symm
  have hgrouped : ((groups js).toList.map fun (name, members) =>
      name.entry members (config.scratchDir / "groups")).map (·.key) =
        (groups js).keys.map (groupEntryKey ·.text) := by
    rw [Index.keys, List.map_map, List.map_map]
    rfl
  rw [entriesOf, List.map_append, hsingle, hgrouped, List.nodup_append]
  refine ⟨?_, ?_, ?_⟩
  · refine List.Nodup.map (fun a b hab => JobId.ext (jobEntryKey_inj.1 hab)) ?_
    exact (List.filter_sublist.map _).nodup hids
  · exact (groups js).nodup_keys.map fun a b hab => GroupName.ext (groupEntryKey_inj.1 hab)
  · intro k hk k' hk' heq
    obtain ⟨id, -, rfl⟩ := List.mem_map.1 hk
    obtain ⟨name, -, rfl⟩ := List.mem_map.1 hk'
    exact jobEntryKey_ne_groupEntryKey _ _ heq

theorem mem_single_iff {single : List EntryModule}
    (h : (js.filter (·.group.isNone)).mapM (plannedJob config files) = .ok single) {e : EntryModule} :
    e ∈ single ↔ ∃ j ∈ js, j.group = none ∧ plannedJob config files j = .ok e := by
  constructor
  · intro he
    obtain ⟨j, hj, hplanned⟩ := exists_of_mem_mapM h he
    rw [List.mem_filter, Option.isNone_iff_eq_none] at hj
    exact ⟨j, hj.1, hj.2, hplanned⟩
  · rintro ⟨j, hj, hgroup, hplanned⟩
    have hmem : j ∈ js.filter (·.group.isNone) := List.mem_filter.2 ⟨hj, by simp [hgroup]⟩
    obtain ⟨e', he', hplanned'⟩ := exists_of_mem_left (forall₂_of_mapM h) hmem
    rw [hplanned, Except.ok.injEq] at hplanned'
    exact hplanned' ▸ he'

/-- What is in a plan. -/
theorem mem_planEntries_iff {es : List EntryModule} (hids : (js.map (·.id)).Nodup)
    (h : planEntries config files js = .ok es) {e : EntryModule} :
    e ∈ es ↔ (∃ j ∈ js, j.group = none ∧ plannedJob config files j = .ok e) ∨
      ∃ name, (∃ j ∈ js, j.group = some name) ∧
        e = name.entry (js.filter (·.group == some name)) (config.scratchDir / "groups") := by
  unfold planEntries at h
  obtain ⟨single, hsingle, h⟩ := Except.bind_eq_ok_iff.1 h
  cases h
  have hnodup := nodup_keys_entriesOf hids hsingle
  have hvalues : e ∈ (Index.ofList ((entriesOf config js single).map fun e => (e.key, e)) :
      Index String EntryModule).values ↔ e ∈ entriesOf config js single := by
    rw [Index.values, List.mem_map]
    constructor
    · rintro ⟨p, hp, rfl⟩
      obtain ⟨e, he, rfl⟩ := List.mem_map.1 (Index.mem_of_mem_toList_ofList hp)
      exact he
    · intro he
      refine ⟨(e.key, e), (Index.mem_ofList_iff ?_).2 (List.mem_map_of_mem he), rfl⟩
      rw [List.map_map]
      exact hnodup
  refine hvalues.trans ?_
  rw [entriesOf, List.mem_append, mem_single_iff hsingle, List.mem_map]
  refine or_congr_right ⟨?_, ?_⟩
  · rintro ⟨⟨name, members⟩, hmem, rfl⟩
    obtain ⟨rfl, hj⟩ := mem_groups_iff.1 hmem
    exact ⟨name, hj, rfl⟩
  · rintro ⟨name, hj, rfl⟩
    exact ⟨(name, _), mem_groups_iff.2 ⟨rfl, hj⟩, rfl⟩

theorem filter_key_eq_singleton {es : List EntryModule} (h : es.Pairwise fun e e' => e.key < e'.key)
    {e : EntryModule} (he : e ∈ es) : es.filter (·.key == e.key) = [e] := by
  induction h with
  | nil => cases he
  | @cons a es hhead _ ih =>
    rcases List.mem_cons.1 he with rfl | he
    · rw [List.filter_cons_of_pos (by simp)]
      refine congrArg (e :: ·) (List.filter_eq_nil_iff.2 fun e' he' heq => ?_)
      exact String.ne_of_lt (hhead e' he') (beq_iff_eq.1 heq).symm
    · rw [List.filter_cons_of_neg]
      · exact ih he
      · intro heq
        exact String.ne_of_lt (hhead e he) (beq_iff_eq.1 heq)

theorem pairwise_not_same {es : List EntryModule} (h : planEntries config files js = .ok es) :
    es.Pairwise fun e e' => ¬e.path.same e'.path := by
  refine (planEntries_ascending h).imp_of_mem fun {e e'} he he' hlt hsame => ?_
  have hplace : e.path.place [] = e'.path.place [] := by
    rw [Path.place, Path.place, beq_iff_eq.1 hsame]
  rw [eq_of_place_eq h he he' hplace] at hlt
  exact String.lt_irrefl _ hlt

/-- What a plan for the jobs of the files is made of. -/
structure Covers (config : Config) (files : List SourceFile) (js : List Job) (es : List EntryModule) :
    Prop where
  /-- The jobs are the marked classes, one by one. -/
  jobs : List.Forall₂ (fun p j => j.IsOf config p.1 p.2) (jobClasses config files) js
  ids : (js.map (·.id)).Nodup
  ascending : es.Pairwise fun e e' => e.key < e'.key
  paths : es.Pairwise fun e e' => ¬e.path.same e'.path
  /-- A job without a group has one entry, made from its own source alone. -/
  single : ∀ j ∈ js, j.group = none → ∃ f ∈ files, f.path = j.sourceFile ∧
    ∃ e, j.entry f (config.scratchDir / "jobs") config.references = .ok e ∧
      es.filter (·.key == jobEntryKey j.id.text) = [e]
  /-- A group has one entry, made from its own jobs alone. -/
  grouped : ∀ name, (∃ j ∈ js, j.group = some name) →
    es.filter (·.key == groupEntryKey name.text) =
      [name.entry (js.filter (·.group == some name)) (config.scratchDir / "groups")]
  /-- There is no other entry. -/
  keys : ∀ e ∈ es, (∃ j ∈ js, j.group = none ∧ e.key = jobEntryKey j.id.text) ∨
    ∃ name, (∃ j ∈ js, j.group = some name) ∧ e.key = groupEntryKey name.text

theorem plannedJob_eq (hpaths : files.Pairwise fun f g => ¬f.path.same g.path) {j : Job}
    {f : SourceFile} (hf : f ∈ files) (hj : j.sourceFile = f.path) :
    plannedJob config files j = j.entry f (config.scratchDir / "jobs") config.references := by
  rw [plannedJob, hj, findSource?_eq_some hpaths hf]

theorem file_of_mem_jobClasses {f : SourceFile} {d : ClassDecl} (h : (f, d) ∈ jobClasses config files) :
    f ∈ files ∧ d ∈ f.outline.classes := by
  obtain ⟨f', hf', h⟩ := List.mem_flatMap.1 h
  obtain ⟨d', hd', heq⟩ := List.mem_map.1 h
  cases heq
  exact ⟨hf', List.mem_of_mem_filter hd'⟩

theorem exists_plannedJob {es : List EntryModule} (h : planEntries config files js = .ok es) {j : Job}
    (hj : j ∈ js) (hgroup : j.group = none) : ∃ e, plannedJob config files j = .ok e := by
  unfold planEntries at h
  obtain ⟨single, hsingle, -⟩ := Except.bind_eq_ok_iff.1 h
  have hmem : j ∈ js.filter (·.group.isNone) := List.mem_filter.2 ⟨hj, by simp [hgroup]⟩
  obtain ⟨e, -, he⟩ := exists_of_mem_left (forall₂_of_mapM hsingle) hmem
  exact ⟨e, he⟩

/-- No job is lost, made twice or made up. -/
theorem planEntries_covers (hpaths : files.Pairwise fun f g => ¬f.path.same g.path)
    (hcss : files.mapM (Candidate.ofSource config) = .ok css)
    (hjs : validate config.mode config.root css.flatten = .ok js) {es : List EntryModule}
    (hes : planEntries config files js = .ok es) : Covers config files js es := by
  have hjobs := forall₂_jobs hcss hjs
  have hids := nodup_ids hjs
  have hascending := planEntries_ascending hes
  refine ⟨hjobs, hids, hascending, pairwise_not_same hes, fun j hj hgroup => ?_, fun name hname => ?_,
    fun e he => ?_⟩
  · obtain ⟨⟨f, d⟩, hfd, hof⟩ := exists_of_mem_left hjobs.flip hj
    have hf := (file_of_mem_jobClasses hfd).1
    obtain ⟨e, hplanned⟩ := exists_plannedJob hes hj hgroup
    refine ⟨f, hf, hof.sourceFile.symm, e, ?_, ?_⟩
    · rw [← plannedJob_eq hpaths hf hof.sourceFile]
      exact hplanned
    · have he := (mem_planEntries_iff hids hes).2 (.inl ⟨j, hj, hgroup, hplanned⟩)
      rw [← plannedJob_eq_ok hplanned]
      exact filter_key_eq_singleton hascending he
  · have he := (mem_planEntries_iff hids hes).2 (.inr ⟨name, hname, rfl⟩)
    exact filter_key_eq_singleton hascending he
  · rcases (mem_planEntries_iff hids hes).1 he with ⟨j, hj, hgroup, hplanned⟩ | ⟨name, hname, rfl⟩
    · exact .inl ⟨j, hj, hgroup, plannedJob_eq_ok hplanned⟩
    · exact .inr ⟨name, hname, rfl⟩

/-- A job in a group, a job without one and a class that is no job. -/
theorem groupedJobs_covered :
    let config : Config := { root := ⟨"/p"⟩, mode := .grouped, groupDecorator := "g" }
    let a : SourceFile :=
      { path := ⟨"a.ts"⟩, text := "@job @g('x') export class A \x7b\x7d\nclass B \x7b\x7d"
        outline := ⟨[], [
          ⟨some "A", [⟨"job", none, ⟨0, 4⟩⟩, ⟨"g", some [.str "x"], ⟨5, 12⟩⟩], .byName,
            ⟨0, 30⟩, ⟨28, 30⟩⟩,
          ⟨some "B", [], .notExported, ⟨31, 41⟩, ⟨39, 41⟩⟩]⟩ }
    let b : SourceFile :=
      { path := ⟨"b.ts"⟩, text := "@job('c') export default class \x7b\x7d"
        outline := ⟨[], [
          ⟨none, [⟨"job", some [.str "c"], ⟨0, 9⟩⟩], .byDefault, ⟨0, 33⟩, ⟨31, 33⟩⟩]⟩ }
    let js := (validate config.mode config.root
      (([a, b].mapM (Candidate.ofSource config)).toOption.getD []).flatten).toOption.getD []
    Outline.ofSource a.text = .ok a.outline ∧ Outline.ofSource b.text = .ok b.outline ∧
      js.map (·.id.text) = ["A", "c"] ∧
      ∃ es, planEntries config [a, b] js = .ok es ∧ es.map (·.key) = ["groups/x", "jobs/c"] ∧
        Covers config [a, b] js es := by
  intro config a b js
  have ha : Outline.ofSource a.text = .ok a.outline := by decide +kernel
  have hb : Outline.ofSource b.text = .ok b.outline := by decide +kernel
  let css := ([a, b].mapM (Candidate.ofSource config)).toOption.getD []
  have hpaths : [a, b].Pairwise fun f g => ¬f.path.same g.path := by decide +kernel
  have hcss : [a, b].mapM (Candidate.ofSource config) = .ok css := by decide +kernel
  have hjs : validate config.mode config.root css.flatten = .ok js := by decide +kernel
  have hes : planEntries config [a, b] js =
      .ok ((planEntries config [a, b] js).toOption.getD []) := by decide +kernel
  exact ⟨ha, hb, by decide +kernel, _, hes, by decide +kernel, planEntries_covers hpaths hcss hjs hes⟩
end JobBundler
