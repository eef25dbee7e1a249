import Mathlib.Data.List.Nodup
import JobBundler.Proofs.Disk.Files
import JobBundler.Proofs.Disk.WellFormed

/-!
# What is below a directory

A disk lists what is below a directory in the order of the names that lead there, each location once. So the
list is known from its members (`entriesBelow_eq`), and what is read off two of them is the same where they
differ only in what nothing is read off (`flatMap_eq_of_sorted`).
-/

namespace JobBundler

namespace Disk

variable {d : Disk} {l : Location} {names : Location}

/-- The order in which a disk lists locations: none comes after a greater one. -/
def IsSorted (ls : List Location) : Prop :=
  ls.Pairwise fun a b => ¬b < a

instance (ls : List Location) : Decidable (IsSorted ls) :=
  inferInstanceAs (Decidable (ls.Pairwise fun a b => ¬b < a))

theorem IsSorted.filter {ls : List Location} (h : IsSorted ls) (p : Location → Bool) :
    IsSorted (ls.filter p) :=
  List.Pairwise.filter p h

/-- Sorted lists of the same locations are one. -/
theorem IsSorted.eq_of_perm {as bs : List Location} (has : IsSorted as) (hbs : IsSorted bs)
    (h : as.Perm bs) : as = bs :=
  List.Perm.eq_of_pairwise
    (fun _ _ _ _ hab hba => List.le_antisymm (List.not_lt.1 hab) (List.not_lt.1 hba)) has hbs h

/-- The names that lead from a location down to another one. -/
def namesDown (l m : Location) : Option Location :=
  (l.isPrefixOf? m).filter (· ≠ [])

theorem namesDown_eq_some_iff {m : Location} :
    namesDown l m = some names ↔ names ≠ [] ∧ l ++ names = m := by
  rw [namesDown, Option.filter_eq_some_iff, List.isPrefixOf?_eq_some_iff_append_eq, decide_eq_true_iff,
    and_comm]

theorem below_perm (d : Disk) (l : Location) :
    ((d.below l).map (·.1)).Perm ((d.nodes.map (·.1)).filterMap (namesDown l)) := by
  refine ((List.mergeSort_perm _ _).map _).trans ?_
  rw [List.map_filterMap, List.filterMap_map]
  refine .of_eq (List.filterMap_congr fun e _ => ?_)
  unfold namesDown
  dsimp only [Function.comp]
  rcases l.isPrefixOf? e.1 with _ | _ | ⟨name, names⟩ <;> rfl

/-- What is below a directory, by the names that lead there. -/
def entriesBelow (d : Disk) (p : Path) : List Location :=
  if d.isDirectory p then (d.below (destination d.workingDir p)).map (·.1) else []

variable {p : Path}

theorem mem_entriesBelow_iff : names ∈ d.entriesBelow p ↔
    d.isDirectory p ∧ names ≠ [] ∧ d.node? (destination d.workingDir p ++ names) ≠ none := by
  unfold entriesBelow
  by_cases hp : d.isDirectory p
  · rw [if_pos hp, (below_perm d _).mem_iff, List.mem_filterMap]
    simp only [namesDown_eq_some_iff, hp, true_and]
    constructor
    · rintro ⟨m, hm, hne, rfl⟩
      obtain ⟨e, he, hem⟩ := List.mem_map.1 hm
      refine ⟨hne, ?_⟩
      rw [node?, if_neg (by simp [hne]), ne_eq, Option.map_eq_none_iff, ← ne_eq, Option.ne_none_iff_isSome,
        List.find?_isSome]
      exact ⟨e, he, by simp [hem]⟩
    · rintro ⟨hne, hnode⟩
      obtain ⟨n, hn⟩ := Option.ne_none_iff_exists'.1 hnode
      exact ⟨_, List.mem_map.2 ⟨_, exists_of_node? hn (by simp [hne]), rfl⟩, hne, rfl⟩
  · simp [hp]

theorem isSorted_below (d : Disk) (l : Location) : IsSorted ((d.below l).map (·.1)) := by
  rw [IsSorted, List.pairwise_map]
  unfold below
  refine (List.pairwise_mergeSort ?_ ?_ _).imp fun h => ?_
  · intro a b c hab hbc
    simp only [Bool.not_eq_true', decide_eq_false_iff_not, List.not_lt] at hab hbc ⊢
    exact List.le_trans hab hbc
  · intro a b
    simp only [Bool.or_eq_true, Bool.not_eq_true', decide_eq_false_iff_not, List.not_lt]
    exact List.le_total a.1 b.1
  · simpa only [Bool.not_eq_true', decide_eq_false_iff_not] using h

/-- What is below a directory is listed in order. -/
theorem isSorted_entriesBelow (d : Disk) (p : Path) : IsSorted (d.entriesBelow p) := by
  unfold entriesBelow
  split
  · exact isSorted_below d _
  · exact .nil

/-- There is one list of what is below a directory that is in order. -/
theorem entriesBelow_eq {ls : List Location} (hp : d.isDirectory p) (hsorted : IsSorted ls)
    (h : ls.Perm ((d.nodes.map (·.1)).filterMap (namesDown (destination d.workingDir p)))) :
    d.entriesBelow p = ls := by
  refine (isSorted_entriesBelow d p).eq_of_perm hsorted ?_
  unfold entriesBelow
  rw [if_pos hp]
  exact (below_perm d _).trans h.symm

theorem WellFormed.nodup_entriesBelow (hd : d.WellFormed) (p : Path) : (d.entriesBelow p).Nodup := by
  unfold entriesBelow
  split
  · rw [(below_perm d _).nodup_iff]
    refine hd.nodup.filterMap fun m m' names hm hm' => ?_
    rw [Option.mem_def, namesDown_eq_some_iff] at hm hm'
    exact hm.2.symm.trans hm'.2
  · exact .nil

/-- Two lists in order, read with what is in both of them alike and nothing in the rest. -/
theorem flatMap_eq_of_sorted {α : Type} {as bs : List Location} {f g : Location → List α}
    (has : IsSorted as) (hbs : IsSorted bs) (has' : as.Nodup) (hbs' : bs.Nodup)
    (hboth : ∀ a ∈ as, a ∈ bs → f a = g a) (hleft : ∀ a ∈ as, a ∉ bs → f a = [])
    (hright : ∀ b ∈ bs, b ∉ as → g b = []) : as.flatMap f = bs.flatMap g := by
  have hrest {as bs : List Location} {f : Location → List α} (h : ∀ a ∈ as, a ∉ bs → f a = []) :
      as.flatMap f = (as.filter (· ∈ bs)).flatMap f := by
    induction as with
    | nil => rfl
    | cons a as ih =>
      rw [List.flatMap_cons, ih fun a' ha' => h a' (List.mem_cons_of_mem a ha')]
      by_cases ha : a ∈ bs
      · rw [List.filter_cons_of_pos (by simpa using ha), List.flatMap_cons]
      · rw [List.filter_cons_of_neg (by simpa using ha), h a List.mem_cons_self ha, List.nil_append]
  have hcommon : as.filter (· ∈ bs) = bs.filter (· ∈ as) := by
    refine (has.filter _).eq_of_perm (hbs.filter _) ?_
    rw [List.perm_ext_iff_of_nodup (has'.filter _) (hbs'.filter _)]
    intro a
    simp only [List.mem_filter, decide_eq_true_iff, and_comm]
  rw [hrest hleft, hrest hright, hcommon]
  refine List.flatMap_congr fun a ha => ?_
  rw [List.mem_filter, decide_eq_true_iff] at ha
  exact hboth a ha.2 ha.1

end Disk

end JobBundler
