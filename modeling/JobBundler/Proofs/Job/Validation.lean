import JobBundler.Proofs.Entry.Coverage

/-!
# What validation decides

Candidates are valid together exactly if each one is sound by itself and no two declare the same id.
Then each becomes a job as it stands, and else every violation is reported, each once and in a fixed
order (`validate_decides`).
-/

namespace JobBundler

/-! ## Names -/

/-- One or more ASCII letters, digits, dots, underscores and hyphens. -/
def Name.IsProper (text : String) : Prop :=
  text ≠ "" ∧ ∀ c ∈ text.toList, ('A' ≤ c ∧ c ≤ 'Z') ∨ ('a' ≤ c ∧ c ≤ 'z') ∨ ('0' ≤ c ∧ c ≤ '9') ∨
    c ∈ ['.', '_', '-']

theorem Name.isValid_iff {text : String} : isValid text ↔ IsProper text := by
  have hchar (c : Char) : isNameChar c ↔ ('A' ≤ c ∧ c ≤ 'Z') ∨ ('a' ≤ c ∧ c ≤ 'z') ∨
      ('0' ≤ c ∧ c ≤ '9') ∨ c ∈ ['.', '_', '-'] := by
    simp [isNameChar, Char.isAlphanum, Text.isAlpha_iff, Char.isDigit_iff_toNat, Char.le_def,
      UInt32.le_iff_toNat_le, or_assoc]
  simp [isValid, IsProper, hchar]

/-! ## The problems of one candidate -/

/-- The order in which the problems of a candidate are reported. -/
def Problem.rank : Problem → Nat
  | notExported .. => 0
  | invalidId .. => 1
  | invalidGroup .. => 2
  | duplicate .. => 3

namespace Candidate

variable {mode : BuildMode} {root : Path} {c : Candidate}

/-- What can be wrong with a candidate by itself. -/
inductive Violates (mode : BuildMode) (root : Path) (c : Candidate) : Problem → Prop
  | notExported (h : c.exported = .notExported) :
    Violates mode root c (.notExported (displayClass c.className) (c.sourceFile.relativeTo root))
  | invalidId (h : ¬Name.IsProper c.id) : Violates mode root c
    (.invalidId c.id (displayClass c.className) (c.sourceFile.relativeTo root))
  | invalidGroup {group : String} (hmode : mode = .grouped) (hgroup : c.group = some group)
    (h : ¬Name.IsProper group) :
    Violates mode root c (.invalidGroup group c.id (c.sourceFile.relativeTo root))

/-- The candidate is exported, and its names are names as far as they are used. -/
structure IsSound (mode : BuildMode) (c : Candidate) : Prop where
  exported : c.exported ≠ .notExported
  id : Name.IsProper c.id
  group : mode = .grouped → ∀ group ∈ c.group, Name.IsProper group

/-- The problems are what is wrong with the candidate by itself, in their order and so each once. -/
structure Reports (mode : BuildMode) (root : Path) (c : Candidate) (ps : List Problem) : Prop where
  ascending : ps.Pairwise (·.rank < ·.rank)
  mem_iff (p : Problem) : p ∈ ps ↔ c.Violates mode root p

theorem groupIn?_eq_some {group : String} :
    c.groupIn? mode = some group ↔ mode = .grouped ∧ c.group = some group := by
  cases mode <;> simp [groupIn?]

theorem reports_problems (mode : BuildMode) (root : Path) (c : Candidate) :
    c.Reports mode root (c.problems mode root) := by
  constructor
  · unfold problems
    dsimp only
    refine List.pairwise_append.2 ⟨List.pairwise_append.2 ⟨?_, ?_, ?_⟩, ?_, ?_⟩
    all_goals (repeat' split) <;> simp [Problem.rank]
  · intro p
    simp only [problems, List.mem_append]
    constructor
    · rintro ((h | h) | h)
      · split at h <;> simp at h
        rename_i hexported
        exact h ▸ .notExported hexported
      · split at h <;> simp at h
        rename_i hid
        exact h ▸ .invalidId (mt Name.isValid_iff.2 hid)
      · split at h
        · rename_i group hgroup
          obtain ⟨hmode, hgroup⟩ := groupIn?_eq_some.1 hgroup
          split at h <;> simp at h
          rename_i hvalid
          exact h ▸ .invalidGroup hmode hgroup (mt Name.isValid_iff.2 hvalid)
        · cases h
    · rintro (hexported | hid | ⟨hmode, hgroup, hvalid⟩)
      · rw [if_pos hexported]
        exact .inl (.inl List.mem_cons_self)
      · rw [if_neg (mt Name.isValid_iff.1 hid)]
        exact .inl (.inr List.mem_cons_self)
      · rw [groupIn?_eq_some.2 ⟨hmode, hgroup⟩]
        dsimp only
        rw [if_neg (mt Name.isValid_iff.1 hvalid)]
        exact .inr List.mem_cons_self

theorem problems_eq_nil_iff : c.problems mode root = [] ↔ c.IsSound mode := by
  have hmem := (reports_problems mode root c).mem_iff
  rw [List.eq_nil_iff_forall_not_mem]
  constructor
  · intro h
    have hnot (p : Problem) : ¬c.Violates mode root p := mt (hmem p).2 (h p)
    refine ⟨fun he => hnot _ (.notExported he), ?_, fun hmode group hgroup => ?_⟩
    · by_contra hid
      exact hnot _ (.invalidId hid)
    · by_contra hvalid
      exact hnot _ (.invalidGroup hmode hgroup hvalid)
  · rintro ⟨hexported, hid, hgroup⟩ p hp
    rcases (hmem p).1 hp with h | h | ⟨hmode, hname, hvalid⟩
    · exact hexported h
    · exact h hid
    · exact hvalid (hgroup hmode _ hname)

/-! ## The job of a candidate -/

/-- The job is the candidate as it stands, with its group where groups are built. -/
structure Becomes (mode : BuildMode) (c : Candidate) (j : Job) : Prop where
  id : j.id.text = c.id
  sourceFile : j.sourceFile = c.sourceFile
  className : j.className = c.className
  exported : j.exported = c.exported
  group : j.group.map (·.text) = match mode with
    | .perJob => none
    | .grouped => c.group

theorem becomes_of_toJob? {j : Job} (h : c.toJob? mode = some j) : c.Becomes mode j := by
  obtain ⟨id, group, -, hid, hgroup, rfl⟩ := toJob?_eq_some h
  exact ⟨JobId.parse_eq_ok_iff.1 hid, rfl, rfl, rfl, map_text_of_mapM_parse hgroup⟩

theorem forall₂_becomes {cs : List Candidate} (h : ∀ c ∈ cs, c.problems mode root = []) :
    List.Forall₂ (Becomes mode) cs (cs.filterMap (toJob? mode)) := by
  induction cs with
  | nil => exact .nil
  | cons c cs ih =>
    obtain ⟨j, hj⟩ := Option.isSome_iff_exists.1 (toJob?_isSome (h c List.mem_cons_self))
    rw [List.filterMap_cons_some hj]
    exact .cons (becomes_of_toJob? hj) (ih fun c hc => h c (List.mem_cons_of_mem _ hc))

end Candidate

/-! ## Ids that are declared more than once -/

variable {root : Path} {cs : List Candidate}

/-- The place where a candidate declares its id. -/
def Candidate.site (root : Path) (c : Candidate) : JobSite :=
  ⟨displayClass c.className, c.sourceFile.relativeTo root⟩

/-- The problems are the ids that are declared more than once, in ascending order, each with all its
places in the order of the candidates. -/
def ReportsDuplicates (root : Path) (cs : List Candidate) (ps : List Problem) : Prop :=
  ∃ ids : List String, ids.Pairwise (· < ·) ∧ (∀ id, id ∈ ids ↔ 2 ≤ (cs.map (·.id)).count id) ∧
    ps = ids.map fun id => .duplicate id ((cs.filter (·.id == id)).map (Candidate.site root))

theorem count_id (id : String) : (cs.map (·.id)).count id = (cs.filter (·.id == id)).length := by
  rw [List.count_eq_countP, List.countP_map, List.countP_eq_length_filter]
  rfl

theorem reportsDuplicates_duplicates (root : Path) (cs : List Candidate) :
    ReportsDuplicates root cs (duplicates root cs) := by
  let several := (Index.groupBy (·.id) cs).toList.filter fun e => e.2.length > 1
  have hsites {e : String × List Candidate} (he : e ∈ (Index.groupBy (·.id) cs).toList) :
      e.2 = cs.filter (·.id == e.1) := (Index.mem_groupBy_iff.1 he).1
  refine ⟨several.map (·.1), ?_, fun id => ?_, ?_⟩
  · exact List.pairwise_map.2 ((Index.groupBy (·.id) cs).ascending.filter _)
  · rw [count_id, List.mem_map]
    constructor
    · rintro ⟨e, he, rfl⟩
      obtain ⟨he, hseveral⟩ := List.mem_filter.1 he
      rw [← hsites he]
      exact of_decide_eq_true hseveral
    · intro h
      obtain ⟨c, hc⟩ := List.exists_mem_of_length_pos (Nat.lt_of_lt_of_le Nat.zero_lt_two h)
      obtain ⟨hc, hid⟩ := List.mem_filter.1 hc
      have hgroup : (id, cs.filter (·.id == id)) ∈ (Index.groupBy (·.id) cs).toList :=
        Index.mem_groupBy_iff.2 ⟨rfl, c, hc, beq_iff_eq.1 hid⟩
      exact ⟨_, List.mem_filter.2 ⟨hgroup, decide_eq_true h⟩, rfl⟩
  · have hproblem (e : String × List Candidate) (he : e ∈ several) :
        Problem.duplicate e.1 (e.2.map (Candidate.site root)) =
          .duplicate e.1 ((cs.filter (·.id == e.1)).map (Candidate.site root)) := by
      rw [← hsites (List.mem_filter.1 he).1]
    rw [List.map_map]
    refine Eq.trans ?_ (List.map_congr_left hproblem)
    refine Eq.trans ?_ (congrFun List.filterMap_eq_map several)
    rw [List.filterMap_filter, duplicates]
    refine List.filterMap_congr fun e _ => ?_
    simp only [decide_eq_true_eq]
    rfl

theorem duplicates_eq_nil_iff : duplicates root cs = [] ↔ cs.Pairwise (·.id ≠ ·.id) := by
  obtain ⟨ids, -, hmem, hds⟩ := reportsDuplicates_duplicates root cs
  have hnodup : cs.Pairwise (·.id ≠ ·.id) ↔ (cs.map (·.id)).Nodup := List.pairwise_map.symm
  rw [hds, List.map_eq_nil_iff, List.eq_nil_iff_forall_not_mem, hnodup, List.nodup_iff_count_le_one]
  refine forall_congr' fun id => ?_
  rw [hmem, Nat.not_le, Nat.lt_succ_iff]

/-! ## All candidates of a build -/

/-- The problems are those of each candidate by itself, in order, and then those of the ids. -/
def IsReport (mode : BuildMode) (root : Path) (cs : List Candidate) (ps : List Problem) : Prop :=
  ∃ own ds, ps = own.flatten ++ ds ∧ List.Forall₂ (Candidate.Reports mode root) cs own ∧
    ReportsDuplicates root cs ds

theorem isReport_problems (mode : BuildMode) (root : Path) (cs : List Candidate) :
    IsReport mode root cs (cs.flatMap (Candidate.problems mode root) ++ duplicates root cs) := by
  refine ⟨cs.map (Candidate.problems mode root), _, by rw [List.flatMap_def], ?_,
    reportsDuplicates_duplicates root cs⟩
  rw [List.forall₂_map_right_iff, List.forall₂_same]
  exact fun c _ => c.reports_problems mode root

/-- Validation succeeds exactly for sound candidates with ids of their own, and then keeps each as it
is. Else it reports every violation. -/
theorem validate_decides (mode : BuildMode) (root : Path) (cs : List Candidate) :
    ((∃ js, validate mode root cs = .ok js) ↔
      (∀ c ∈ cs, c.IsSound mode) ∧ cs.Pairwise (·.id ≠ ·.id)) ∧
    match validate mode root cs with
    | .ok js => List.Forall₂ (Candidate.Becomes mode) cs js
    | .error ps => IsReport mode root cs ps := by
  have hsound : cs.flatMap (Candidate.problems mode root) ++ duplicates root cs = [] ↔
      (∀ c ∈ cs, c.IsSound mode) ∧ cs.Pairwise (·.id ≠ ·.id) := by
    rw [List.append_eq_nil_iff, List.flatMap_eq_nil_iff, duplicates_eq_nil_iff]
    exact and_congr_left' (forall₂_congr fun c _ => Candidate.problems_eq_nil_iff)
  have hreport := isReport_problems mode root cs
  rw [← hsound]
  unfold validate
  split
  · rename_i hnil
    have hall := List.flatMap_eq_nil_iff.1 (List.append_eq_nil_iff.1 hnil).1
    exact ⟨⟨fun _ => hnil, fun _ => ⟨_, rfl⟩⟩, Candidate.forall₂_becomes hall⟩
  · rename_i hne
    exact ⟨⟨by rintro ⟨js, ⟨⟩⟩, fun h => absurd h hne⟩, hreport⟩

end JobBundler
