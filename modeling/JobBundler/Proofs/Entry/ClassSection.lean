import JobBundler.Proofs.Entry.Synthesis
import JobBundler.Proofs.Token.Lossless

/-!
# The class of an entry

A job is made from a class at some place of its source, and its entry from the class that is found there
under the same name. The entry holds the text of the job's own class exactly if no class before that one
is found instead (`Job.entry_shows`).
-/

namespace JobBundler

variable {config : Config} {f : SourceFile} {before after : List ClassDecl} {c d : ClassDecl}
  {cand : Candidate} {j : Job}

/-! ## Looking up a class -/

/-- The class is one that is found when `d` is looked up: it has the name of `d`, or, when that has none,
it is exported as the default. -/
def ClassDecl.answersFor (c d : ClassDecl) : Bool :=
  match d.name with
  | some name => c.name == some name
  | none => c.exported == .byDefault

theorem Job.findClass_eq_ok_iff (h : j.IsOf config f d) :
    j.findClass f = .ok c ↔ f.outline.classes.find? (·.answersFor d) = some c := by
  unfold findClass ClassDecl.answersFor
  rw [h.className]
  cases d.name with
  | some name =>
    simp only [Outline.classNamed?]
    cases f.outline.classes.find? (·.name == some name) <;> simp
  | none =>
    simp only [Outline.defaultClass?]
    cases f.outline.classes.find? (·.exported == .byDefault) <;> simp

namespace Outline

variable {source : String} {o : Outline}

/-- A class is among those that are found when it is looked up. -/
theorem answersFor_self (h : ofSource source = .ok o) (hd : d ∈ o.classes) : d.answersFor d := by
  unfold ClassDecl.answersFor
  cases hname : d.name with
  | some name => simp
  | none => simpa using byDefault_of_nameless h hd hname

/-- What is found when a class is looked up: the first one up to it that answers. -/
theorem find?_answersFor (h : ofSource source = .ok o) (hd : o.classes = before ++ d :: after) :
    o.classes.find? (·.answersFor d) = (before ++ [d]).find? (·.answersFor d) := by
  have hself := answersFor_self h (d := d) (by simp [hd])
  rw [hd, List.find?_append, List.find?_append]
  simp [hself]

/-- A class starts where those before it have ended. -/
theorem stop_le_start (h : ofSource source = .ok o) (hd : o.classes = before ++ d :: after) :
    ∀ b ∈ before, b.span.stop ≤ d.span.start := by
  obtain ⟨y, hy, ho⟩ := ofSource_eq_ok_iff.1 h
  have hclasses := pairwise_classes ho (Token.lossless_of_ofSource hy).ordered
  rw [hd, List.pairwise_append] at hclasses
  exact fun b hb => hclasses.2.2 b hb d List.mem_cons_self

theorem notMem_before (h : ofSource source = .ok o) (hd : o.classes = before ++ d :: after) :
    d ∉ before := by
  intro hbefore
  obtain ⟨y, hy, ho⟩ := ofSource_eq_ok_iff.1 h
  have hts := Token.lossless_of_ofSource hy
  have hlt := start_lt_stop_of_mem_classes ho hts.ordered hts.nonempty (d := d) (by simp [hd])
  exact (stop_le_start h hd d hbefore).not_gt hlt

end Outline

/-! ## The text of an entry -/

/-- What the entry of a class ends with: its default export, unless it is exported so where it stands. -/
inductive ClassDecl.Ending (d : ClassDecl) : String → Prop where
  | exported : d.exported = .byDefault → Ending d ""
  | appended (name : String) : d.exported ≠ .byDefault → d.name = some name →
      Ending d s!"\nexport default {name};\n"

/-- The entry of the class `d` has the text of the class `c`, between the imports that this text needs and
the ending for `d`. -/
def EntryModule.Shows (e : EntryModule) (id : String) (f : SourceFile) (dir : Path)
    (strategy : ReferenceStrategy) (d c : ClassDecl) : Prop :=
  ∃ used ending,
    referencedNames strategy (c.span.slice f.text) (f.outline.imports.flatMap ImportDecl.bindings) =
      .ok used ∧
    d.Ending ending ∧
    e.text = s!"// generated by ej for {id}\n" ++
      String.join ((f.outline.imports.flatMap
        (ImportDecl.reduce used f.text (f.path.parent?.getD ⟨""⟩) dir)).map (· ++ "\n")) ++
      "\n" ++ c.span.slice f.text ++ "\n" ++ ending

variable {dir : Path} {strategy : ReferenceStrategy} {e : EntryModule}

theorem Job.IsOf.exists_ending (h : j.IsOf config f d) (hnamed : d.name = none → d.exported = .byDefault)
    (imports : List String) (classText : String) :
    ∃ ending, d.Ending ending ∧ j.entryText imports classText =
      s!"// generated by ej for {j.id.text}\n" ++ String.join (imports.map (· ++ "\n")) ++ "\n" ++
        classText ++ "\n" ++ ending := by
  by_cases hexported : d.exported = .byDefault
  · refine ⟨"", .exported hexported, ?_⟩
    unfold entryText
    rw [h.exported, hexported]
  · obtain ⟨name, hname⟩ := Option.ne_none_iff_exists'.1 (mt hnamed hexported)
    refine ⟨s!"\nexport default {name};\n", .appended name hexported hname, ?_⟩
    unfold entryText
    rw [h.exported, h.className, hname]
    cases hkind : d.exported with
    | byDefault => exact absurd hkind hexported
    | byName => rfl
    | notExported => rfl

theorem Job.shows_of_entry (h : j.IsOf config f d) (hnamed : d.name = none → d.exported = .byDefault)
    (he : j.entry f dir strategy = .ok e) :
    ∃ c, j.findClass f = .ok c ∧ e.Shows j.id.text f dir strategy d c := by
  unfold entry at he
  obtain ⟨c, hc, he⟩ := Except.bind_eq_ok_iff.1 he
  dsimp only at he
  split at he
  · cases he
  · rename_i used hused
    cases he
    obtain ⟨ending, hending, htext⟩ := h.exists_ending hnamed
      (f.outline.imports.flatMap (ImportDecl.reduce used f.text (f.path.parent?.getD ⟨""⟩) dir))
      (c.span.slice f.text)
    exact ⟨c, hc, used, ending, hused, hending, htext⟩

/-- The entry of a job has the text of the first class, up to its own, that is found when its own is looked
up. This is its own text exactly if no class before is found so; else it is a text that ends before its
own one starts. In both cases it ends as its own class needs. -/
theorem Job.entry_shows (hparse : Outline.ofSource f.text = .ok f.outline)
    (hd : f.outline.classes = before ++ d :: after)
    (hcand : Candidate.ofClass? f.path f.text config d = .ok (some cand))
    (hj : cand.toJob? config.mode = some j) (he : j.entry f dir strategy = .ok e) :
    ∃ c, e.Shows j.id.text f dir strategy d c ∧
      (before ++ [d]).find? (·.answersFor d) = some c ∧
      (c = d ↔ ∀ b ∈ before, ¬b.answersFor d) ∧
      (c ≠ d → c ∈ before ∧ c.span.stop ≤ d.span.start) := by
  have hmem : d ∈ f.outline.classes := by simp [hd]
  have hof : j.IsOf config f d := ((Candidate.of_ofClass? hcand).2 cand rfl).2.of_toJob? hj
  obtain ⟨c, hc, hshows⟩ := shows_of_entry hof (Outline.byDefault_of_nameless hparse hmem) he
  rw [findClass_eq_ok_iff hof, Outline.find?_answersFor hparse hd] at hc
  refine ⟨c, hshows, hc, ?_, fun hne => ?_⟩
  · constructor
    · rintro rfl b hb hanswers
      have hfound : (before.find? (·.answersFor c)).isSome := List.find?_isSome.2 ⟨b, hb, hanswers⟩
      obtain ⟨c', hc'⟩ := Option.isSome_iff_exists.1 hfound
      rw [List.find?_append, hc', Option.some_or, Option.some.injEq] at hc
      exact Outline.notMem_before hparse hd (hc ▸ List.mem_of_find?_eq_some hc')
    · intro hnone
      rw [List.find?_append, List.find?_eq_none.2 hnone, Option.none_or] at hc
      exact List.mem_singleton.1 (List.mem_of_find?_eq_some hc)
  · have hbefore : c ∈ before := by
      rcases List.mem_append.1 (List.mem_of_find?_eq_some hc) with hbefore | hlast
      · exact hbefore
      · exact absurd (List.mem_singleton.1 hlast) hne
    exact ⟨hbefore, Outline.stop_le_start hparse hd c hbefore⟩

/-- A job after another class, with an import that its text refers to. -/
theorem jobAfterClass_shown :
    let config : Config := { root := ⟨"/p"⟩ }
    let b : ClassDecl := ⟨some "B", [], .notExported, ⟨23, 33⟩, ⟨31, 33⟩⟩
    let d : ClassDecl := ⟨some "A", [⟨"job", none, ⟨34, 38⟩⟩], .byName, ⟨34, 63⟩, ⟨54, 63⟩⟩
    let f : SourceFile :=
      { path := ⟨"/p/src/a.job.ts"⟩
        text := "import \x7b x \x7d from 'm';\nclass B \x7b\x7d\n@job export class A \x7b y = x \x7d\n"
        outline := ⟨[⟨"m", none, none, [⟨"x", "x", false⟩], false, none, ⟨0, 22⟩⟩], [b, d]⟩ }
    let j : Job := ⟨⟨"A", by decide⟩, f.path, some "A", .byName, none⟩
    let e : EntryModule :=
      { key := "jobs/A", path := ⟨"/p/dist/.ej/entries/jobs/A.entry.ts"⟩
        text := "// generated by ej for A\nimport \x7b x \x7d from 'm';\n\n" ++
          "@job export class A \x7b y = x \x7d\n\nexport default A;\n" }
    Outline.ofSource f.text = .ok f.outline ∧
      j.entry f (config.scratchDir / "jobs") config.references = .ok e ∧
      e.Shows "A" f (config.scratchDir / "jobs") config.references d d := by
  intro config b d f j e
  have hparse : Outline.ofSource f.text = .ok f.outline := by decide +kernel
  have hcand : Candidate.ofClass? f.path f.text config d =
      .ok (some ⟨f.path, some "A", "A", .byName, none⟩) := by decide +kernel
  have hj : Candidate.toJob? config.mode ⟨f.path, some "A", "A", .byName, none⟩ = some j := by
    decide +kernel
  have he : j.entry f (config.scratchDir / "jobs") config.references = .ok e := by decide +kernel
  have hclasses : f.outline.classes = [b] ++ d :: [] := rfl
  obtain ⟨c, hshows, -, hown, -⟩ := Job.entry_shows hparse hclasses hcand hj he
  obtain rfl : c = d := hown.2 (by decide)
  exact ⟨hparse, he, hshows⟩

/-- A class expression at the start of a line is read as a class, and its text is bundled in place of that
of the job with the same name. -/
theorem classExpression_hides_job :
    let config : Config := { root := ⟨"/p"⟩ }
    let d : ClassDecl := ⟨some "A", [⟨"job", none, ⟨45, 49⟩⟩], .byName, ⟨45, 67⟩, ⟨65, 67⟩⟩
    let f : SourceFile :=
      { path := ⟨"/p/src/a.job.ts"⟩
        text := "export const Base =\nclass A \x7b helper() \x7b\x7d \x7d;\n@job\nexport class A \x7b\x7d\n"
        outline := ⟨[], [⟨some "A", [], .notExported, ⟨20, 43⟩, ⟨28, 43⟩⟩, d]⟩ }
    let cand : Candidate := ⟨f.path, some "A", "A", .byName, none⟩
    let j : Job := ⟨⟨"A", by decide⟩, f.path, some "A", .byName, none⟩
    Outline.ofSource f.text = .ok f.outline ∧
      Candidate.ofClass? f.path f.text config d = .ok (some cand) ∧
      validate config.mode config.root [cand] = .ok [j] ∧
      ∃ e, j.entry f (config.scratchDir / "jobs") config.references = .ok e ∧
        e.text = "// generated by ej for A\n\nclass A \x7b helper() \x7b\x7d \x7d\n\nexport default A;\n" ∧
        ∀ front back, e.text ≠ front ++ d.span.slice f.text ++ back := by
  intro config d f cand j
  let e : EntryModule :=
    { key := "jobs/A", path := ⟨"/p/dist/.ej/entries/jobs/A.entry.ts"⟩
      text := "// generated by ej for A\n\nclass A \x7b helper() \x7b\x7d \x7d\n\nexport default A;\n" }
  refine ⟨by decide +kernel, by decide +kernel, by decide +kernel, e, by decide +kernel, rfl, ?_⟩
  -- The decorator of the job is lost.
  intro front back h
  have hsign : '@' ∈ (d.span.slice f.text).toList := by decide +kernel
  have hnone : '@' ∉ e.text.toList := by decide +kernel
  refine hnone ?_
  rw [h, String.toList_append, String.toList_append]
  exact List.mem_append_left _ (List.mem_append_right _ hsign)

end JobBundler
