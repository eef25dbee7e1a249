import JobBundler.Proofs.Disk.Above
import JobBundler.Proofs.Path.FileName

/-!
# Files beside each other

A path with another extension leads to the same directory as the path, by another name (`Beside`). What stands
at the one name does not decide where the path with the other one leads (`Beside.directory_of_passes`).
-/

namespace JobBundler.Disk

open JobBundler.Path (Component EndsInSlash IsTrail)

variable {d : Disk} {p q : Path} {wd l : Location} {pre trail : List Char}

/-! ## Steps of a text -/

theorem textSteps_append (hp : EndsInSlash pre) (cs : List Char) :
    textSteps (pre ++ cs) = textSteps pre ++ textSteps cs := by
  rcases hp with rfl | ⟨as, rfl⟩
  · rfl
  · have hpre : textSteps (as ++ ['/']) = textSteps as := by
      rw [textSteps_append_slash]
      exact List.append_nil _
    rw [hpre, List.append_assoc, List.singleton_append, textSteps_append_slash]

theorem textSteps_of_skipped {cs : List Char} (h : ∀ s ∈ Path.segments cs, Path.isSkipped s = true) :
    ∀ name ∈ textSteps cs, name = "." := by
  intro name hname
  obtain ⟨s, hs, hs'⟩ := List.mem_filterMap.1 hname
  have hskip := h s hs
  rw [Path.isSkipped, Bool.or_eq_true, beq_iff_eq] at hskip
  rcases hskip with hempty | rfl
  · simp [hempty] at hs'
  · cases hs'
    rfl

theorem textSteps_name {name : String} (hn : (Component.normal name).IsStep) :
    textSteps name.toList = [name] :=
  steps_of_isStep hn

theorem exists_textSteps (hp : EndsInSlash pre) (ht : IsTrail trail) {name : String}
    (hn : (Component.normal name).IsStep) : ∃ dots, (∀ name ∈ dots, name = ".") ∧
      textSteps (pre ++ name.toList ++ trail) = textSteps pre ++ name :: dots := by
  rcases ht with rfl | ⟨rest, rfl, hrest⟩
  · refine ⟨[], nofun, ?_⟩
    rw [List.append_nil, textSteps_append hp, textSteps_name hn]
  · refine ⟨textSteps rest, textSteps_of_skipped hrest, ?_⟩
    rw [textSteps_append_slash, textSteps_append hp, textSteps_name hn, List.append_assoc]
    rfl

theorem ending_of_dots (hp : p.text.toList = pre ++ ['.', '.']) (hpre : EndsInSlash pre) :
    ending p = .dots := by
  have hdots : textSteps ['.', '.'] = [".."] := by decide
  rw [ending, steps_eq, hp, textSteps_append hpre, hdots, List.getLast?_concat]
  rfl

/-- A path that ends in a name has a file name. -/
theorem exists_fileName? (h : ending p = .name) : ∃ name, p.fileName? = some name := by
  obtain ⟨name, hlast, hnot⟩ : ∃ name, (steps p).getLast? = some name ∧ ¬(name = "." ∨ name = "..") := by
    unfold ending at h
    split at h
    · cases h
    · rename_i name hlast
      refine ⟨name, hlast, fun hdots => ?_⟩
      rw [if_pos hdots] at h
      cases h
  obtain ⟨before, hbefore⟩ := List.getLast?_eq_some_iff.1 hlast
  rw [steps_eq, textSteps] at hbefore
  obtain ⟨front, back, hsegments, -, hback⟩ := List.filterMap_eq_append_iff.1 hbefore
  obtain ⟨skipped, s, rest, rfl, -, hs, hrest⟩ := List.filterMap_eq_cons_iff.1 hback
  split at hs
  · cases hs
  · rename_i hempty
    cases hs
    have hdot : s ≠ ['.'] := by
      rintro rfl
      exact hnot (.inl rfl)
    have hdots : s ≠ ['.', '.'] := by
      rintro rfl
      exact hnot (.inr rfl)
    have hskip : Path.isSkipped s = false := by
      rw [Path.isSkipped, Bool.or_eq_false_iff, beq_eq_false_iff_ne]
      exact ⟨by simpa using hempty, hdot⟩
    have hcomponent : Path.componentOf? s = some (.normal (String.ofList s)) := by
      rw [Path.componentOf?, if_neg (by simp [hskip]), if_neg hdots]
    rw [← List.append_assoc] at hsegments
    refine ⟨_, Path.fileName?_of_segments hsegments hcomponent fun t ht => ?_⟩
    have htext := List.filterMap_eq_nil_iff.1 hrest t ht
    split at htext
    · rename_i htempty
      rw [Path.isSkipped, htempty]
      rfl
    · cases htext

/-! ## Paths to the same directory -/

/-- The paths lead to the same directory and to different names there; the first one may go on with dots. -/
structure Beside (p q : Path) where
  /-- The steps to the directory. -/
  base : List String
  name : String
  other : String
  dots : List String
  isAbsolute : q.isAbsolute = p.isAbsolute
  steps_left : steps p = base ++ name :: dots
  steps_right : steps q = base ++ [other]
  ne : name ≠ other
  isStep_name : (Component.normal name).IsStep
  isStep_other : (Component.normal other).IsStep
  eq_dot : ∀ s ∈ dots, s = "."

theorem exists_beside {name other : String} (hp : p.text.toList = pre ++ name.toList ++ trail)
    (hq : q.text.toList = pre ++ other.toList) (hpre : EndsInSlash pre) (ht : IsTrail trail)
    (hname : (Component.normal name).IsStep) (hother : (Component.normal other).IsStep)
    (hne : name ≠ other) : Nonempty (Beside p q) := by
  obtain ⟨dots, hdots, hsteps⟩ := exists_textSteps hpre ht hname
  have habsolute : q.isAbsolute = p.isAbsolute := by
    have hnot (n : String) (hn : (Component.normal n).IsStep) (cs : List Char) :
        ((n.toList ++ cs).head? == some '/') = false := by
      have hslash : '/' ∉ n.toList := hn.slash_notMem
      obtain ⟨c, cs', hc⟩ := List.exists_cons_of_ne_nil (toList_ne_nil_of_isStep hn)
      rw [hc] at hslash ⊢
      have hcne : c ≠ '/' := fun h => hslash (h ▸ List.mem_cons_self)
      simp [hcne]
    rw [Path.isAbsolute, Path.isAbsolute, hp, hq]
    cases pre with
    | cons c pre => rfl
    | nil =>
      rw [List.nil_append, List.nil_append, hnot name hname, ← List.append_nil other.toList, hnot other hother]
  refine ⟨{ base := textSteps pre, name, other, dots, isAbsolute := habsolute, ne := hne
            isStep_name := hname, isStep_other := hother, eq_dot := hdots
            steps_left := ?_, steps_right := ?_ }⟩
  · rw [steps_eq, hp, hsteps]
  · rw [steps_eq, hq, textSteps_append hpre, textSteps_name hother]

theorem step_of_isStep {name : String} (hn : (Component.normal name).IsStep) (l : Location) :
    step l name = l ++ [name] := by
  have hdot : name ≠ "." := by
    rintro rfl
    exact absurd hn (by decide)
  have hdots : name ≠ ".." := by
    rintro rfl
    exact absurd hn (by decide)
  rw [step, if_neg hdot, if_neg hdots]

theorem foldl_step_of_dots {names : List String} (h : ∀ name ∈ names, name = ".") (l : Location) :
    names.foldl step l = l := by
  induction names with
  | nil => rfl
  | cons name names ih =>
    obtain rfl := h name List.mem_cons_self
    exact ih fun name hname => h name (List.mem_cons_of_mem _ hname)

namespace Beside

variable (h : Beside p q)

/-- The directory that the paths lead to. -/
def directory (wd : Location) : Location :=
  h.base.foldl step (start wd p)

theorem destination_left : destination wd p = h.directory wd ++ [h.name] := by
  rw [← foldl_steps_start, h.steps_left, List.foldl_append, List.foldl_cons, step_of_isStep h.isStep_name,
    foldl_step_of_dots h.eq_dot, directory]

theorem destination_right : destination wd q = h.directory wd ++ [h.other] := by
  rw [← foldl_steps_start, h.steps_right, List.foldl_append, List.foldl_cons, step_of_isStep h.isStep_other,
    List.foldl_nil, start, h.isAbsolute, ← start, directory]

include h

theorem destination_ne : destination wd q ≠ destination wd p := by
  rw [h.destination_left, h.destination_right]
  intro heq
  exact h.ne (List.singleton_inj.1 (List.append_cancel_left heq)).symm

/-- Where the second path leads somewhere, the first one leads through directories, up to its name. -/
theorem directory_of_passes {m : Location} (hq : d.locate q = .ok m) (hl : Passes d.workingDir p l) :
    d.node? l = some .directory ∨ ending p ≠ .name ∧ l = destination d.workingDir p := by
  obtain ⟨before, after, hsteps, hafter, rfl⟩ := hl
  rw [h.steps_left] at hsteps
  rcases List.append_eq_append_iff.1 hsteps with ⟨rest, rfl, hrest⟩ | ⟨rest, hbase, -⟩
  · rcases List.cons_eq_append_iff.1 hrest with ⟨rfl, -⟩ | ⟨dots, rfl, hdots⟩
    · left
      refine Passes.directory (p := q) ⟨h.base, [h.other], h.steps_right, by simp, ?_⟩ hq
      rw [List.append_nil, start, start, h.isAbsolute]
    · right
      constructor
      · have hlast : (steps p).getLast? = some "." := by
          obtain ⟨after, last, rfl⟩ := (List.eq_nil_or_concat' after).resolve_left hafter
          have hsteps' : steps p = (h.base ++ h.name :: (dots ++ after)) ++ [last] := by
            rw [h.steps_left, hdots]
            simp
          rw [hsteps', List.getLast?_concat, h.eq_dot last (by simp [hdots])]
        rw [ending, hlast]
        simp
      · rw [List.foldl_append, List.foldl_cons, step_of_isStep h.isStep_name, foldl_step_of_dots,
          h.destination_left, directory]
        exact fun name hname => h.eq_dot name (hdots ▸ List.mem_append_left _ hname)
  · left
    refine Passes.directory (p := q) ⟨before, rest ++ [h.other], ?_, by simp, ?_⟩ hq
    · rw [h.steps_right, hbase, List.append_assoc]
    · rw [start, start, h.isAbsolute]

end Beside

end JobBundler.Disk
