import JobBundler.Proofs.Entry.Coverage
import JobBundler.Proofs.Outline.ClassText

/-!
# When entries can be made

A plan for validated jobs fails only over the text of a class that does not close what it opens, when
that is read for the names it refers to (`planEntries_isOk_iff`).
-/

namespace JobBundler

/-! ## Failures of sequences -/

theorem mapM_isOk_iff {ε α β : Type} {f : α → Except ε β} {as : List α} :
    (as.mapM f).isOk ↔ ∀ a ∈ as, (f a).isOk := by
  induction as with
  | nil => simp [Except.isOk, Except.toBool, pure, Except.pure]
  | cons a as ih =>
    rw [List.mapM_cons, List.forall_mem_cons, ← ih]
    rcases f a with e | b
    · simp [Except.isOk, Except.toBool, bind, Except.bind]
    · rcases as.mapM f with e | bs <;> simp [Except.isOk, Except.toBool, bind, Except.bind, pure, Except.pure]

theorem exists_of_mapM_error {ε α β : Type} {f : α → Except ε β} {as : List α} {e : ε}
    (h : as.mapM f = .error e) : ∃ a ∈ as, f a = .error e := by
  induction as with
  | nil =>
    rw [List.mapM_nil] at h
    cases h
  | cons a as ih =>
    rw [List.mapM_cons] at h
    cases ha : f a with
    | error e' =>
      rw [ha] at h
      cases h
      exact ⟨a, List.mem_cons_self, ha⟩
    | ok b =>
      rw [ha] at h
      cases has : as.mapM f with
      | error e' =>
        rw [has] at h
        cases h
        obtain ⟨a', ha', h'⟩ := ih has
        exact ⟨a', List.mem_cons_of_mem _ ha', h'⟩
      | ok bs =>
        rw [has] at h
        cases h

variable {config : Config} {files : List SourceFile} {css : List (List Candidate)} {js : List Job}
  {j : Job} {f : SourceFile} {d : ClassDecl}

/-! ## The class of a job -/

theorem mem_of_findClass (h : j.findClass f = .ok d) : d ∈ f.outline.classes := by
  unfold Job.findClass at h
  dsimp only at h
  split at h
  · rename_i hfound
    cases h
    split at hfound
    · exact List.mem_of_find?_eq_some hfound
    · exact List.mem_of_find?_eq_some hfound
  · cases h

/-- A job has a class in its source. -/
theorem exists_findClass (hparse : Outline.ofSource f.text = .ok f.outline) (hd : d ∈ f.outline.classes)
    (h : j.IsOf config f d) : ∃ d', j.findClass f = .ok d' := by
  unfold Job.findClass
  rw [h.className]
  cases hname : d.name with
  | some name =>
    cases hfound : f.outline.classNamed? name with
    | none => exact absurd hname (by simpa using List.find?_eq_none.1 hfound d hd)
    | some d' => exact ⟨d', by simp only [hfound]⟩
  | none =>
    have hdefault := Outline.byDefault_of_nameless hparse hd hname
    cases hfound : f.outline.defaultClass? with
    | none => exact absurd hdefault (by simpa using List.find?_eq_none.1 hfound d hd)
    | some d' => exact ⟨d', rfl⟩

/-! ## Entries -/

/-- The entry of a job fails only over the text of its class. -/
theorem Job.entry_isOk_iff (hd : j.findClass f = .ok d) (dir : Path) (strategy : ReferenceStrategy) :
    ((j.entry f dir strategy).isOk ↔
      (strategy = .lexical → ∃ ts, tokenize (d.span.slice f.text) = .ok ts)) ∧
    ∀ e, j.entry f dir strategy = .error e →
      strategy = .lexical ∧ ∃ error, e = .references (displayClass j.className) f.path error := by
  unfold entry
  rw [hd]
  cases strategy with
  | textual =>
    refine ⟨iff_of_true rfl (by rintro ⟨⟩), ?_⟩
    rintro e ⟨⟩
  | lexical =>
    simp only [bind, Except.bind, referencedNames, Reference.lexical]
    cases tokenize (d.span.slice f.text) with
    | error error =>
      refine ⟨iff_of_false (by rintro ⟨⟩) fun h => ?_, ?_⟩
      · obtain ⟨ts, hts⟩ := h trivial
        cases hts
      · rintro e ⟨⟩
        exact ⟨trivial, error, rfl⟩
    | ok ts =>
      refine ⟨iff_of_true rfl fun _ => ⟨ts, rfl⟩, ?_⟩
      rintro e ⟨⟩

/-- The class of the job closes in its text what it opens there, and nothing else. -/
def Job.ClassCloses (files : List SourceFile) (j : Job) : Prop :=
  ∀ f ∈ files, f.path = j.sourceFile → ∀ d, j.findClass f = .ok d → ∀ ts, tokenize f.text = .ok ts →
    Mark.CloseInside ((ts.filter (d.span.encloses ·.span)).flatMap (Token.marks f.text))

theorem classCloses_iff (hpaths : files.Pairwise fun f g => ¬f.path.same g.path) (hf : f ∈ files)
    (hparse : Outline.ofSource f.text = .ok f.outline) (hj : j.sourceFile = f.path)
    (hd : j.findClass f = .ok d) :
    j.ClassCloses files ↔ ∃ ts, tokenize (d.span.slice f.text) = .ok ts := by
  obtain ⟨y, hy, -⟩ := Outline.ofSource_eq_ok_iff.1 hparse
  have hts := Lexing.tokenize_eq hy
  obtain ⟨t, us, hfilter, hslice⟩ := Outline.tokenize_slice_of_mem hparse (mem_of_findClass hd) hts
  constructor
  · intro h
    have hclose := h f hf hj.symm d hd _ hts
    rw [hfilter] at hclose
    exact ⟨_, hslice.2 ⟨hclose, rfl⟩⟩
  · rintro ⟨vs, hvs⟩ f' hf' hj' d' hd' ts' hts'
    have hsame := findSource?_eq_some hpaths hf'
    rw [hj', hj, findSource?_eq_some hpaths hf, Option.some.injEq] at hsame
    subst hsame
    rw [hd, Except.ok.injEq] at hd'
    rw [hts, Except.ok.injEq] at hts'
    subst hd' hts'
    rw [hfilter]
    exact (hslice.1 hvs).1

section

variable (hparse : ∀ f ∈ files, Outline.ofSource f.text = .ok f.outline)
  (hpaths : files.Pairwise fun f g => ¬f.path.same g.path)
  (hcss : files.mapM (Candidate.ofSource config) = .ok css)
  (hjs : validate config.mode config.root css.flatten = .ok js)

include hparse hpaths hcss hjs

/-- The entry of a validated job fails only over the text of its class. -/
theorem plannedJob_isOk_iff (hj : j ∈ js) :
    ((plannedJob config files j).isOk ↔ (config.references = .lexical → j.ClassCloses files)) ∧
      ∀ e, plannedJob config files j = .error e →
        config.references = .lexical ∧ ∃ className file error, e = .references className file error := by
  obtain ⟨⟨f, d⟩, hfd, hof⟩ := exists_of_mem_left (forall₂_jobs hcss hjs).flip hj
  obtain ⟨hf, hd⟩ := file_of_mem_jobClasses hfd
  obtain ⟨d', hd'⟩ := exists_findClass (hparse f hf) hd hof
  obtain ⟨hok, herror⟩ := Job.entry_isOk_iff hd' (config.scratchDir / "jobs") config.references
  rw [plannedJob_eq hpaths hf hof.sourceFile, hok,
    classCloses_iff hpaths hf (hparse f hf) hof.sourceFile hd']
  refine ⟨Iff.rfl, fun e he => ?_⟩
  obtain ⟨hlexical, error, rfl⟩ := herror e he
  exact ⟨hlexical, _, _, error, rfl⟩

/-- A plan for validated jobs can be made exactly if, where the lexical strategy reads the classes of the
jobs without a group, each of them closes in its text what it opens there. Nothing else is an error. -/
theorem planEntries_isOk_iff :
    ((planEntries config files js).isOk ↔
      (config.references = .lexical → ∀ j ∈ js, j.group = none → j.ClassCloses files)) ∧
    ∀ e, planEntries config files js = .error e →
      config.references = .lexical ∧ ∃ className file error, e = .references className file error := by
  have hplanned {j : Job} (hj : j ∈ js) := plannedJob_isOk_iff hparse hpaths hcss hjs hj
  have hsingle : (planEntries config files js).isOk ↔
      ((js.filter (·.group.isNone)).mapM (plannedJob config files)).isOk := by
    unfold planEntries
    cases (js.filter (·.group.isNone)).mapM (plannedJob config files) <;> rfl
  constructor
  · rw [hsingle, mapM_isOk_iff]
    constructor
    · intro h hlexical j hj hgroup
      refine (hplanned hj).1.1 (h j ?_) hlexical
      exact List.mem_filter.2 ⟨hj, by simp [hgroup]⟩
    · intro h j hj
      rw [List.mem_filter, Option.isNone_iff_eq_none] at hj
      exact (hplanned hj.1).1.2 fun hlexical => h hlexical j hj.1 hj.2
  · intro e he
    have herror : (js.filter (·.group.isNone)).mapM (plannedJob config files) = .error e := by
      unfold planEntries at he
      cases h : (js.filter (·.group.isNone)).mapM (plannedJob config files) with
      | error e' =>
        rw [h] at he
        exact he
      | ok single =>
        rw [h] at he
        cases he
    obtain ⟨j, hj, hj'⟩ := exists_of_mapM_error herror
    exact (hplanned (List.mem_of_mem_filter hj)).2 e hj'

end

/-- A class with a substitution between its braces. -/
theorem closedClass_planned :
    let config : Config := { root := ⟨"/p"⟩ }
    let d : ClassDecl := ⟨some "A", [⟨"job", none, ⟨0, 4⟩⟩], .byName, ⟨0, 28⟩, ⟨20, 28⟩⟩
    let f : SourceFile :=
      { path := ⟨"a.ts"⟩, text := "@job export class A \x7b\x60$\x7b0\x7d\x60\x7d", outline := ⟨[], [d]⟩ }
    let j : Job := ⟨⟨"A", by decide⟩, f.path, some "A", .byName, none⟩
    Outline.ofSource f.text = .ok f.outline ∧
      validate config.mode config.root [⟨f.path, some "A", "A", .byName, none⟩] = .ok [j] ∧
      (planEntries config [f] [j]).isOk := by
  intro config d f j
  have hparse : Outline.ofSource f.text = .ok f.outline := by decide +kernel
  have hcss : [f].mapM (Candidate.ofSource config) =
      .ok [[⟨f.path, some "A", "A", .byName, none⟩]] := by decide +kernel
  have hjs : validate config.mode config.root [⟨f.path, some "A", "A", .byName, none⟩] = .ok [j] := by
    decide +kernel
  have hfind : j.findClass f = .ok d := by decide +kernel
  have hts : tokenize f.text = .ok ((tokenize f.text).toOption.getD []) := by decide +kernel
  have hclose : Mark.CloseInside ((((tokenize f.text).toOption.getD []).filter
      (d.span.encloses ·.span)).flatMap (Token.marks f.text)) := by decide +kernel
  refine ⟨hparse, hjs, (planEntries_isOk_iff ?_ (List.pairwise_singleton _ _) hcss hjs).1.2 ?_⟩
  · intro f' hf'
    obtain rfl := List.mem_singleton.1 hf'
    exact hparse
  · intro _ j' hj' _ f' hf' _ d' hd' ts' hts'
    obtain rfl := List.mem_singleton.1 hj'
    obtain rfl := List.mem_singleton.1 hf'
    rw [hfind, Except.ok.injEq] at hd'
    rw [hts, Except.ok.injEq] at hts'
    subst hd' hts'
    exact hclose

/-- A class whose brackets match by number alone, after braces that do so too, is found and validated, and
its text cannot be read. -/
theorem plan_fails_on_mismatched_class :
    let config : Config := { root := ⟨"/p"⟩ }
    let f : SourceFile :=
      { path := ⟨"/p/src/a.job.ts"⟩, text := "(\x7b))\n@job export class A \x7b ( \x7d \x7d\n"
        outline := ⟨[], [⟨some "A", [⟨"job", none, ⟨5, 9⟩⟩], .byName, ⟨5, 32⟩, ⟨25, 32⟩⟩]⟩ }
    let j : Job := ⟨⟨"A", by decide⟩, f.path, some "A", .byName, none⟩
    Outline.ofSource f.text = .ok f.outline ∧
      [f].mapM (Candidate.ofSource config) = .ok [[⟨f.path, some "A", "A", .byName, none⟩]] ∧
      validate config.mode config.root [⟨f.path, some "A", "A", .byName, none⟩] = .ok [j] ∧
      planEntries config [f] [j] =
        .error (.references "A" f.path ⟨.unmatchedBrace, ⟨26, 27⟩⟩) := by
  intro config f j
  exact ⟨by decide +kernel, by decide +kernel, by decide +kernel, by decide +kernel⟩

end JobBundler
