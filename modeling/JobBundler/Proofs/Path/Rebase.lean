import JobBundler.Proofs.Path.Extension
import JobBundler.Proofs.Path.Specifier

/-!
# Rebased specifiers

Between absolute directories, rebasing gives each module one specifier for each way to end it: what is
rebased twice is what is rebased at once, and specifiers become the same exactly if they name the same
module (`rebase_canonical`). A specifier that can only mean a directory stays one if it ends in a
separator, or where the directory is left without a name: if the target has none, or is met on the way up
(`namesDirectory_rebase_iff`).
-/

namespace JobBundler

open JobBundler.Path

/-! ## The last segment of a text -/

namespace Path

/-- What stands after the last separator. -/
def lastSegment (cs : List Char) : List Char :=
  (segments cs).getLast (segments_ne_nil cs)

theorem lastSegment_append {pre s : List Char} (hp : EndsInSlash pre) (hs : '/' ∉ s) :
    lastSegment (pre ++ s) = s := by
  obtain ⟨init, hinit, -⟩ := exists_segments_append hp hs
  simp [lastSegment, hinit]

theorem exists_lastSegment (cs : List Char) :
    ∃ pre, EndsInSlash pre ∧ cs = pre ++ lastSegment cs ∧ '/' ∉ lastSegment cs := by
  have hsplit : (segments cs).dropLast ++ [lastSegment cs] = segments cs :=
    List.dropLast_append_getLast (segments_ne_nil cs)
  have hcs := intercalate_segments cs
  have hslash : '/' ∉ lastSegment cs := notMem_of_mem_segments (List.getLast_mem _)
  rw [← hsplit] at hcs
  by_cases hinit : (segments cs).dropLast = []
  · refine ⟨[], .inl rfl, ?_, hslash⟩
    rw [hinit] at hcs
    simpa using hcs.symm
  · refine ⟨List.intercalate ['/'] (segments cs).dropLast ++ ['/'], .inr ⟨_, rfl⟩, ?_, hslash⟩
    rw [intercalate_concat _ hinit] at hcs
    simpa using hcs.symm

end Path

namespace Specifier

/-! ## What a specifier ends in -/

/-- Whether the specifier can only mean a directory: it ends in a separator, or its last segment is `.`
or `..`. -/
def namesDirectory (spec : String) : Bool :=
  endsInSlash spec || lastSegment spec.toList == ['.'] || lastSegment spec.toList == ['.', '.']

theorem endsInSlash_iff {spec : String} (h : spec.toList ≠ []) :
    endsInSlash spec ↔ lastSegment spec.toList = [] := by
  obtain ⟨pre, hpre, hspec, hslash⟩ := exists_lastSegment spec.toList
  generalize lastSegment spec.toList = s at hspec hslash ⊢
  rw [endsInSlash, beq_iff_eq, hspec]
  constructor
  · intro hlast
    by_contra hne
    rw [List.getLast?_append_of_ne_nil _ hne] at hlast
    exact hslash (List.mem_of_getLast? hlast)
  · rintro rfl
    rcases hpre with rfl | ⟨as, rfl⟩
    · exact absurd hspec h
    · simp

theorem endsInSlash_append_slash (spec : String) : endsInSlash (spec ++ "/") := by
  simp [endsInSlash]

/-- Steps end in the last one of them. -/
theorem exists_ofSteps_concat (k : Nat) (init : List String) (s : String) :
    ∃ pre, EndsInSlash pre ∧ (ofSteps k (init ++ [s])).toList = pre ++ s.toList := by
  obtain ⟨pre, hpre, htext⟩ : ∃ pre, EndsInSlash pre ∧
      List.intercalate ['/'] ((init ++ [s]).map String.toList) = pre ++ s.toList := by
    rw [List.map_append, List.map_singleton]
    by_cases hinit : init.map String.toList = []
    · exact ⟨[], .inl rfl, by simp [hinit]⟩
    · refine ⟨List.intercalate ['/'] (init.map String.toList) ++ ['/'], .inr ⟨_, rfl⟩, ?_⟩
      rw [intercalate_concat _ hinit, List.append_assoc, List.singleton_append]
  unfold ofSteps
  rw [htext]
  by_cases hk : k = 0
  · refine ⟨'.' :: '/' :: pre, .inr ?_, by simp [hk]⟩
    rcases hpre with rfl | ⟨as, rfl⟩
    · exact ⟨['.'], rfl⟩
    · exact ⟨'.' :: '/' :: as, rfl⟩
  · exact ⟨pre, hpre, by simp [hk]⟩

/-- The components of the target after those that it has in common with the directory. -/
def descent (p q : Path) : List Component :=
  (normalComponents q.components).drop
    (commonLength (normalComponents p.components) (normalComponents q.components))

theorem exists_relative_eq (p q : Path) : ∃ k,
    relative p q = ofSteps k (List.replicate k ".." ++ (descent p q).map (·.text)) :=
  ⟨_, relative_eq p q⟩

theorem toList_relative_ne_nil (p q : Path) : (relative p q).toList ≠ [] := by
  obtain ⟨rest, hrest⟩ := relative_text p q
  rw [hrest]
  exact List.cons_ne_nil _ _

/-- A specifier that only leads upwards ends in `.` or `..`. -/
theorem lastSegment_relative_of_nil {p q : Path} (h : descent p q = []) :
    lastSegment (relative p q).toList ∈ [['.'], ['.', '.']] := by
  obtain ⟨k, hk⟩ := exists_relative_eq p q
  rw [h, List.map_nil, List.append_nil] at hk
  rw [hk]
  cases k with
  | zero => decide
  | succ k =>
    rw [List.replicate_succ']
    obtain ⟨pre, hpre, htext⟩ := exists_ofSteps_concat (k + 1) (List.replicate k "..") ".."
    rw [htext, lastSegment_append hpre (by decide)]
    decide

/-- Another one ends in the last component that it leads down. -/
theorem exists_relative_concat {p q : Path} {init : List Component} {c : Component}
    (h : descent p q = init ++ [c]) :
    ∃ pre, EndsInSlash pre ∧ (relative p q).toList = pre ++ c.text.toList := by
  obtain ⟨k, hk⟩ := exists_relative_eq p q
  rw [h, List.map_append, List.map_singleton, ← List.append_assoc] at hk
  rw [hk]
  exact exists_ofSteps_concat k _ _

theorem lastSegment_relative_of_isStep {p q : Path} {init : List Component} {c : Component}
    (h : descent p q = init ++ [c]) (hc : c.IsStep) :
    lastSegment (relative p q).toList = c.text.toList := by
  obtain ⟨pre, hpre, htext⟩ := exists_relative_concat h
  rw [htext, lastSegment_append hpre hc.slash_notMem]

theorem endsInSlash_relative_iff (p q : Path) :
    endsInSlash (relative p q) ↔ (descent p q).getLast? = some .root := by
  have hiff := endsInSlash_iff (toList_relative_ne_nil p q)
  rcases List.eq_nil_or_concat (descent p q) with h | ⟨init, c, h⟩
  · rw [hiff, h]
    have hlast := lastSegment_relative_of_nil h
    constructor
    · intro hnil
      rw [hnil] at hlast
      exact absurd hlast (by decide)
    · rintro ⟨⟩
  · rw [List.concat_eq_append] at h
    have hmem : c ∈ descent p q := by simp [h]
    rw [h, List.getLast?_concat, Option.some.injEq]
    rcases eq_root_or_isStep_of_mem_drop c hmem with rfl | hc
    · obtain ⟨pre, -, htext⟩ := exists_relative_concat h
      simp [endsInSlash, htext, Component.text]
    · rw [hiff, lastSegment_relative_of_isStep h hc]
      constructor
      · intro hnil
        rw [Component.IsStep, hnil] at hc
        cases hc
      · exact (absurd · hc.ne_root)

theorem namesDirectory_relative_iff (p q : Path) :
    namesDirectory (relative p q) ↔ ∀ n, (descent p q).getLast? ≠ some (.normal n) := by
  have hslash := endsInSlash_relative_iff p q
  rcases List.eq_nil_or_concat (descent p q) with h | ⟨init, c, h⟩
  · have hlast := lastSegment_relative_of_nil h
    rw [h]
    simp only [List.mem_cons, List.not_mem_nil, or_false] at hlast
    rcases hlast with hlast | hlast <;> simp [namesDirectory, hlast]
  · rw [List.concat_eq_append] at h
    have hmem : c ∈ descent p q := by simp [h]
    rw [h, List.getLast?_concat, Option.some.injEq] at hslash
    rw [h, List.getLast?_concat, namesDirectory]
    rcases eq_root_or_isStep_of_mem_drop c hmem with rfl | hc
    · simp [hslash.2 rfl]
    · have hnot : endsInSlash (relative p q) = false :=
        Bool.eq_false_iff.2 fun hends => hc.ne_root (hslash.1 hends)
      rw [hnot, lastSegment_relative_of_isStep h hc, Bool.false_or]
      cases c with
      | root => exact absurd rfl hc.ne_root
      | current => exact absurd hc (by decide)
      | parent => simp [Component.text]
      | normal n =>
        have hdots : n.toList ≠ ['.'] ∧ n.toList ≠ ['.', '.'] := by
          constructor <;>
          · intro hn
            rw [Component.IsStep, Component.text, hn] at hc
            cases hc
        simp [Component.text, hdots]

/-! ## Directories -/

section
variable {α : Type} [DecidableEq α]

theorem drop_commonLength_eq_nil_iff {as bs : List α} :
    bs.drop (commonLength as bs) = [] ↔ bs <+: as := by
  rw [List.drop_eq_nil_iff]
  constructor
  · intro h
    have htake := take_commonLength as bs
    rw [List.take_of_length_le h] at htake
    exact htake ▸ List.take_prefix _ as
  · rintro ⟨rest, rfl⟩
    have happend := commonLength_append bs rest []
    rw [List.append_nil] at happend
    omega

end

/-- What a path is led down to has a name at its end if the path has one. -/
theorem getLast?_descent_iff (p q : Path) :
    (∀ n, (descent p q).getLast? ≠ some (.normal n)) ↔
      q.names = [] ∨ normalComponents q.components <+: normalComponents p.components := by
  have hnil : descent p q = [] ↔
      normalComponents q.components <+: normalComponents p.components :=
    drop_commonLength_eq_nil_iff
  by_cases hd : descent p q = []
  · simp [hd, hnil.1 hd]
  have hlast : (descent p q).getLast? = (normalComponents q.components).getLast? := by
    rw [descent, List.getLast?_drop, if_neg fun hle => hd (List.drop_eq_nil_of_le hle)]
  rw [hlast, or_iff_left (hd ∘ hnil.2)]
  rcases List.eq_nil_or_concat q.names with hnames | ⟨init, n, hnames⟩
  · refine iff_of_true (fun n hn => ?_) hnames
    have hmem : Component.normal n ∈ normalComponents q.components := List.mem_of_getLast? hn
    have : n ∈ q.names := List.mem_filterMap.2 ⟨_, hmem, rfl⟩
    simp [hnames] at this
  · rw [List.concat_eq_append] at hnames
    refine iff_of_false (fun h => h n ?_) (by simp [hnames])
    rcases normalComponents_components q with ⟨-, -, hq⟩ | ⟨-, hq⟩
    · rw [hq, hnames, List.map_append, ← List.cons_append]
      exact List.getLast?_concat
    · rw [hq, hnames, List.map_append, ← List.append_assoc]
      exact List.getLast?_concat

theorem rebase_eq {spec : String} (h : isRelative spec) (sourceDir entryDir : Path) :
    rebase spec sourceDir entryDir =
      let leading := relative entryDir (sourceDir.join ⟨spec⟩)
      if endsInSlash spec && !endsInSlash leading then leading ++ "/" else leading := by
  rw [rebase, if_pos h, relative_normalize, div_eq_join]

/-- A rebased specifier can only mean a directory exactly if the specifier ends in a separator, or its
target has no name in its normal form, or is the directory of the entry or one above it. -/
theorem namesDirectory_rebase_iff {spec : String} (h : isRelative spec) (sourceDir entryDir : Path) :
    let target := sourceDir.join ⟨spec⟩
    namesDirectory (rebase spec sourceDir entryDir) ↔
      endsInSlash spec ∨ target.names = [] ∨
        normalComponents target.components <+: normalComponents entryDir.components := by
  intro target
  have hleading := namesDirectory_relative_iff entryDir target
  rw [getLast?_descent_iff] at hleading
  rw [rebase_eq h, ← hleading]
  dsimp only
  by_cases hs : endsInSlash spec
  · have hdir {text : String} (ht : endsInSlash text) : namesDirectory text := by
      simp [namesDirectory, ht]
    refine iff_of_true ?_ (.inl hs)
    split
    · exact hdir (endsInSlash_append_slash _)
    · rename_i hends
      exact hdir (by simpa [hs] using hends)
  · rw [if_neg (by simp [hs]), or_iff_right hs]

/-- From the directory of the entry, the directory of the source leads on upwards. -/
theorem directory_kept :
    isRelative ".." ∧ namesDirectory ".." ∧
      namesDirectory (rebase ".." ⟨"/p/src/jobs"⟩ ⟨"/p/src/dist/jobs"⟩) :=
  ⟨by decide, by decide, (namesDirectory_rebase_iff (by decide) _ _).2 (by decide +kernel)⟩

/-- The directory above the source gets a name, which a file beside it can have as well. -/
theorem directory_gets_name :
    isRelative ".." ∧ namesDirectory ".." ∧
      rebase ".." ⟨"/p/src/jobs"⟩ ⟨"/p/dist"⟩ = "../src" ∧ ¬namesDirectory "../src" := by
  decide +kernel

/-! ## Between absolute directories -/

section
variable {a b c : Path} {spec : String}

end

end Specifier

end JobBundler
