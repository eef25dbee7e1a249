import JobBundler.Proofs.Disk.Directories

/-!
# Paths to files

What a path denotes is decided by the nodes on its way (`nodeAt_congr`). A path to a file leads there as
long as the directories on its way are left (`isFile_of_directories`).
-/

namespace JobBundler.Disk

open JobBundler.Path (Component)

variable {d d' : Disk} {p q : Path} {l : Location} {n : String}

theorem walk_congr {here : Location} {names : List String}
    (h : ∀ pre post, names = pre ++ post → d'.node? (pre.foldl step here) = d.node? (pre.foldl step here)) :
    d'.walk here names = d.walk here names := by
  induction names generalizing here with
  | nil => rfl
  | cons name names ih =>
    have hhere : d'.node? here = d.node? here := h [] (name :: names) rfl
    have hrest := ih fun pre post hnames => h (name :: pre) post (congrArg (name :: ·) hnames)
    rw [walk, walk, hhere, hrest]

theorem locate_congr (hwd : d'.workingDir = d.workingDir)
    (h : ∀ l ∈ way d.workingDir p, d'.node? l = d.node? l) : d'.locate p = d.locate p := by
  have hwalk : d'.walk (start d.workingDir p) (steps p) = d.walk (start d.workingDir p) (steps p) :=
    walk_congr fun pre post hsteps => h _ (mem_way_iff.2 ⟨pre, post, hsteps, rfl⟩)
  unfold locate
  rw [hwd, ← start, hwalk]

/-- What a path denotes is decided by the nodes on its way. -/
theorem nodeAt_congr (hwd : d'.workingDir = d.workingDir)
    (h : ∀ l ∈ way d.workingDir p, d'.node? l = d.node? l) : d'.nodeAt p = d.nodeAt p := by
  have hlocate := locate_congr hwd h
  have hnode := h _ (destination_mem_way d.workingDir p)
  unfold nodeAt
  rw [hlocate]
  cases hl : d.locate p with
  | error e => rfl
  | ok l =>
    obtain rfl := locate_eq_ok hl
    simp only [bind, Except.bind, hnode]

theorem readText_congr (hwd : d'.workingDir = d.workingDir)
    (h : ∀ l ∈ way d.workingDir p, d'.node? l = d.node? l) : d'.readText p = d.readText p := by
  unfold readText read
  rw [nodeAt_congr hwd h]

theorem nodeAt_eq_file_iff {f : File} : d.nodeAt p = .ok (.file f) ↔
    d.locate p = .ok (destination d.workingDir p) ∧ ending p = .name ∧
      d.node? (destination d.workingDir p) = some (.file f) := by
  constructor
  · intro h
    obtain ⟨hl, hn⟩ := nodeAt_eq_ok h
    refine ⟨hl, ?_, hn⟩
    unfold nodeAt at h
    rw [hl] at h
    simp only [bind, Except.bind, hn] at h
    cases he : ending p with
    | name => rfl
    | separator => rw [he] at h; cases h
    | dots => rw [he] at h; cases h
  · rintro ⟨hl, hp, hn⟩
    unfold nodeAt
    rw [hl]
    simp only [bind, Except.bind, hn, hp]
    rfl

theorem readText_of_nodeAt {f : File} {t : String} (h : d.nodeAt p = .ok (.file f))
    (hf : f.content = .text t) : d.readText p = .ok t := by
  unfold readText Disk.read
  rw [h]
  simp only [bind, Except.bind, hf]
  rfl

theorem isFile_iff : d.isFile p ↔ ∃ f, d.nodeAt p = .ok (.file f) := by
  unfold isFile
  constructor
  · intro h
    split at h
    · exact ⟨_, ‹_›⟩
    · cases h
  · rintro ⟨f, hf⟩
    rw [hf]

theorem nodeAt_eq_directory_iff : d.nodeAt p = .ok .directory ↔ d.isDirectory p := by
  unfold isDirectory
  constructor
  · intro h
    rw [h]
  · intro h
    split at h
    · assumption
    · cases h

theorem isDirectory_iff : d.isDirectory p ↔
    d.locate p = .ok (destination d.workingDir p) ∧
      d.node? (destination d.workingDir p) = some .directory := by
  unfold isDirectory
  constructor
  · intro h
    split at h
    · exact nodeAt_eq_ok ‹_›
    · cases h
  · rintro ⟨hl, hn⟩
    rw [nodeAt_of_directory hl hn]

/-- On the way to a directory there are directories only. -/
theorem Reaches.directory (h : Reaches d p) (hl : l ∈ way d.workingDir p) :
    d.node? l = some .directory := by
  obtain ⟨m, hm, hdir⟩ := h
  obtain ⟨pre, post, hsteps, rfl⟩ := mem_way_iff.1 hl
  rw [hsteps] at hm
  obtain ⟨m', hm', hpost⟩ := walk_append_eq_ok_iff.1 hm
  rw [← eq_foldl_of_walk hm']
  cases post with
  | nil => cases hpost; exact hdir
  | cons name names => exact (walk_cons_eq_ok_iff.1 hpost).1

/-- A path goes on leading to where it led when no directory on its way is lost. -/
theorem locate_of_directories (hwd : d'.workingDir = d.workingDir)
    (hd : ∀ m ∈ way d.workingDir p, d.node? m = some .directory → d'.node? m = some .directory)
    (h : d.locate p = .ok l) : d'.locate p = .ok l := by
  obtain ⟨hnul, hempty, hsize, hwalk⟩ := locate_eq_ok_iff.1 h
  refine locate_eq_ok_iff.2 ⟨hnul, hempty, hsize, ?_⟩
  rw [hwd]
  apply walk_of_directories hwalk
  intro pre post hsteps _ hn
  exact hd _ (mem_way_iff.2 ⟨pre, post, hsteps, rfl⟩) hn

theorem isFile_of_directories (hwd : d'.workingDir = d.workingDir)
    (hd : ∀ m ∈ way d.workingDir p, d.node? m = some .directory → d'.node? m = some .directory)
    (h : d.isFile p) {f : File} (hf : d'.node? (destination d.workingDir p) = some (.file f)) :
    d'.isFile p := by
  obtain ⟨g, hg⟩ := isFile_iff.1 h
  obtain ⟨hl, hp, -⟩ := nodeAt_eq_file_iff.1 hg
  refine isFile_iff.2 ⟨f, nodeAt_eq_file_iff.2 ⟨?_, hp, ?_⟩⟩
  · rw [hwd]
    exact locate_of_directories hwd hd hl
  · rwa [hwd]

/-! ## Names at the end of a path -/

theorem toList_ne_nil_of_isStep (h : (Component.normal n).IsStep) : n.toList ≠ [] := by
  intro hnil
  have hsteps := steps_of_isStep h
  rw [steps_eq, hnil] at hsteps
  cases hsteps

/-- A joined name is the end of the text, and no separator comes after it. -/
theorem getLast?_div (h : (Component.normal n).IsStep) (p : Path) :
    (p / n).text ≠ "" ∧ (p / n).text.toList.getLast? ≠ some '/' := by
  obtain ⟨pre, -, hjoin⟩ := exists_join_text p
  have hslash : '/' ∉ n.toList := h.slash_notMem
  have hne := toList_ne_nil_of_isStep h
  rw [Path.div_eq_join, hjoin _ (Path.not_isAbsolute_of_isStep h)]
  constructor
  · intro hempty
    have htext := congrArg String.toList hempty
    rw [String.toList_append] at htext
    exact hne (List.append_eq_nil_iff.1 htext).2
  · intro hl
    rw [String.toList_append, List.getLast?_append_of_ne_nil _ hne] at hl
    exact hslash (List.mem_of_getLast? hl)

theorem ending_div (h : (Component.normal n).IsStep) (p : Path) : ending (p / n) = .name := by
  have hdots : ¬(n = "." ∨ n = "..") := by
    rintro (rfl | rfl)
    all_goals exact absurd h (by decide)
  unfold ending
  rw [steps_div h, List.getLast?_concat]
  simp only [hdots, (getLast?_div h p).2, if_false]

/-- Two names may be joined to a path at once or one after the other. -/
theorem div_div {m : String} (hm : (Component.normal m).IsStep) (hn : (Component.normal n).IsStep)
    (p : Path) : p / s!"{m}/{n}" = p / m / n := by
  obtain ⟨pre, -, hjoin⟩ := exists_join_text p
  have hslash : '/' ∉ m.toList := hm.slash_notMem
  obtain ⟨a, as, ha⟩ := List.exists_cons_of_ne_nil (toList_ne_nil_of_isStep hm)
  have htext : s!"{m}/{n}" = m ++ "/" ++ n := rfl
  have habsolute : ¬(Path.mk s!"{m}/{n}").isAbsolute := by
    rw [Path.isAbsolute_iff]
    rintro ⟨cs, hcs⟩
    rw [htext, String.toList_append, String.toList_append, ha] at hcs
    cases hcs
    exact hslash (ha ▸ List.mem_cons_self)
  obtain ⟨hempty, hlast⟩ := getLast?_div hm p
  have hfirst : (p / m).text = pre ++ m := hjoin _ (Path.not_isAbsolute_of_isStep hm)
  have hboth : (p / m / n).text = pre ++ m ++ "/" ++ n := by
    rw [Path.div_eq_join, Path.join, if_neg (Path.not_isAbsolute_of_isStep hn), if_neg, hfirst]
    simp [hempty, hlast]
  have hone : (p / s!"{m}/{n}").text = pre ++ s!"{m}/{n}" := hjoin _ habsolute
  rw [htext, ← String.append_assoc, ← String.append_assoc, ← hboth] at hone
  exact congrArg Path.mk hone

end JobBundler.Disk
