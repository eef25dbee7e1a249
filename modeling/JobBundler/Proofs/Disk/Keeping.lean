import JobBundler.Proofs.Disk.Files

/-!
# Disks that keep their nodes

Writing files and making directories leaves each directory a directory and each file a file (`Keeping`). When
what is to be made is there, making it again succeeds, and all nodes stay as they are (`Alike`).
-/

namespace JobBundler.Disk

variable {d d' : Disk} {p q : Path} {wd l : Location}

/-! ## Nodes that stay -/

/-- A directory stays a directory, and a file a file. -/
def SameKind (n n' : Option Node) : Prop :=
  (n = some .directory → n' = some .directory) ∧ ((∃ f, n = some (.file f)) → ∃ f, n' = some (.file f))

theorem SameKind.isFrame : IsFrame SameKind where
  refl _ := ⟨id, id⟩
  trans h h' := ⟨fun hn => h'.1 (h.1 hn), fun hn => h'.2 (h.2 hn)⟩

theorem Makes.sameKind {n n' : Option Node} (h : Makes n n') : SameKind n n' := by
  rcases h with rfl | ⟨rfl, -⟩
  · exact SameKind.isFrame.refl _
  · constructor
    · rintro ⟨⟩
    · rintro ⟨_, ⟨⟩⟩

theorem at_write_sameKind {content : Content} (h : write p content d = .ok d') :
    At wd l SameKind d d' := by
  obtain ⟨f, -, -, rfl, hn⟩ := write_eq_ok h
  have hdir : d.node? (destination d.workingDir p) ≠ some .directory := by
    rcases hn with hn | ⟨g, hn, -⟩ <;> simp [hn]
  refine at_put SameKind.isFrame (ne_nil_of_ne_directory hdir) ?_
  rintro rfl
  exact ⟨fun h => absurd h hdir, fun _ => ⟨f, rfl⟩⟩

/-- All nodes stay what they are. -/
def Keeping (d d' : Disk) : Prop :=
  d'.workingDir = d.workingDir ∧ ∀ l, SameKind (d.node? l) (d'.node? l)

theorem Keeping.of_at (h : ∀ l, At d.workingDir l SameKind d d') : Keeping d d' :=
  ⟨(h [] rfl).1, fun l => (h l rfl).2⟩

theorem Keeping.isFrame : IsFrame Keeping where
  refl _ := ⟨rfl, fun _ => SameKind.isFrame.refl _⟩
  trans h h' := ⟨h'.1.trans h.1, fun l => SameKind.isFrame.trans (h.2 l) (h'.2 l)⟩

theorem Keeping.isFile (h : Keeping d d') (hp : d.isFile p) : d'.isFile p := by
  obtain ⟨f, hf⟩ := isFile_iff.1 hp
  obtain ⟨g, hg⟩ := (h.2 _).2 ⟨f, (nodeAt_eq_file_iff.1 hf).2.2⟩
  exact isFile_of_directories h.1 (fun l _ => (h.2 l).1) hp hg

theorem keeps_writeWithDirs_of {R : Disk → Disk → Prop} (hR : IsFrame R) {content : Content}
    (hm : ∀ q, p.parent? = some q → Keeps R (makeDirs q))
    (hw : ∀ d d', write p content d = .ok d' → R d d') : Keeps R (writeWithDirs p content) := by
  have hwrite : Keeps R (Action.change (write p content)) := Action.keeps_change hR hw
  unfold writeWithDirs
  split
  · exact .bind hR (hm _ ‹_›) fun _ => hwrite
  · exact hwrite

theorem keeping_makeDirs (p : Path) : Keeps Keeping (makeDirs p) :=
  fun d => .of_at fun _ => (keeps_makeDirs p d).mono fun _ _ => Makes.sameKind

theorem keeping_write {content : Content} (h : write p content d = .ok d') : Keeping d d' :=
  .of_at fun _ => at_write_sameKind h

theorem keeping_writeWithDirs (p : Path) (content : Content) : Keeps Keeping (writeWithDirs p content) :=
  keeps_writeWithDirs_of Keeping.isFrame (fun q _ => keeping_makeDirs q) fun _ _ => keeping_write

/-- A file that is written is there. -/
theorem isFile_of_write {content : Content} (h : write p content d = .ok d') : d'.isFile p := by
  have hwd := (holds_of_write h).1
  obtain ⟨f, -, ⟨hp, hl⟩, rfl, hn⟩ := write_eq_ok h
  have hdir : d.node? (destination d.workingDir p) ≠ some .directory := by
    rcases hn with hn | ⟨g, hn, -⟩ <;> simp [hn]
  refine isFile_iff.2 ⟨f, nodeAt_eq_file_iff.2 ⟨?_, hp, ?_⟩⟩
  · refine locate_of_directories hwd (fun l _ hl => ?_) hl
    exact ((at_write_sameKind h rfl).2).1 hl
  · rw [hwd, node?_put (ne_nil_of_ne_directory hdir), if_pos rfl]

theorem isFile_of_writeWithDirs {content : Content} (h : (writeWithDirs p content).run d = (.ok (), d')) :
    d'.isFile p := by
  unfold writeWithDirs at h
  split at h
  · obtain ⟨_, d₁, -, h⟩ := run_bind_eq_ok_iff.1 h
    exact isFile_of_write (Action.run_change_eq_ok_iff.1 h)
  · exact isFile_of_write (Action.run_change_eq_ok_iff.1 h)

/-! ## Disks with the same nodes -/

/-- The disks have the same nodes, whatever order they are listed in. -/
structure Alike (d d' : Disk) : Prop where
  workingDir : d'.workingDir = d.workingDir
  node? (l : Location) : d'.node? l = d.node? l

theorem Alike.isFrame : IsFrame Alike where
  refl _ := ⟨rfl, fun _ => rfl⟩
  trans h h' := ⟨h'.workingDir.trans h.workingDir, fun l => (h'.node? l).trans (h.node? l)⟩

theorem Alike.isFile (h : Alike d d') (p : Path) : d'.isFile p = d.isFile p := by
  unfold Disk.isFile
  rw [nodeAt_congr h.workingDir fun l _ => h.node? l]

theorem Alike.readText (h : Alike d d') (p : Path) : d'.readText p = d.readText p :=
  readText_congr h.workingDir fun l _ => h.node? l

/-! ## On the way to a file -/

theorem node?_on_way (h : d.isFile p) (hl : l ∈ way d.workingDir p) :
    l = destination d.workingDir p ∨ d.node? l = some .directory := by
  obtain ⟨f, hf⟩ := isFile_iff.1 h
  obtain ⟨-, -, -, hwalk⟩ := locate_eq_ok_iff.1 (nodeAt_eq_file_iff.1 hf).1
  obtain ⟨pre, post, hsteps, rfl⟩ := mem_way_iff.1 hl
  cases post with
  | nil =>
    rw [List.append_nil] at hsteps
    rw [← hsteps, foldl_steps_start]
    exact .inl rfl
  | cons name names =>
    rw [hsteps] at hwalk
    obtain ⟨m, hm, hrest⟩ := walk_append_eq_ok_iff.1 hwalk
    have hdir := (walk_cons_eq_ok_iff.1 hrest).1
    rw [eq_foldl_of_walk hm] at hdir
    exact .inr hdir

theorem node?_ne_none_on_way (h : d.isFile p) (hl : l ∈ way d.workingDir p) : d.node? l ≠ none := by
  rcases node?_on_way h hl with rfl | hdir
  · obtain ⟨f, hf⟩ := isFile_iff.1 h
    simp [(nodeAt_eq_file_iff.1 hf).2.2]
  · simp [hdir]

/-- The path above a path to a file leads to a directory. -/
theorem isDirectory_of_parent? (h : d.isFile p) (hq : p.parent? = some q) (hne : q.text ≠ "") :
    d.isDirectory q := by
  obtain ⟨f, hf⟩ := isFile_iff.1 h
  obtain ⟨hnul, -, hsize, hwalk⟩ := locate_eq_ok_iff.1 (nodeAt_eq_file_iff.1 hf).1
  obtain ⟨⟨more, hmore, hsteps⟩, rest, htext⟩ := steps_of_parent? hq
  have hfits : Fits (q.text ++ String.ofList rest) := by
    have heq : q.text ++ String.ofList rest = p.text := by
      rw [← String.toList_inj, String.toList_append, String.toList_ofList, htext]
    rw [heq]
    exact ⟨hnul, hsize⟩
  have habsolute : q.isAbsolute = p.isAbsolute := isAbsolute_of_prefix ⟨rest, htext⟩ hne
  rw [hsteps, ← habsolute] at hwalk
  obtain ⟨m, hm, hrest⟩ := walk_append_eq_ok_iff.1 hwalk
  obtain ⟨name, names, rfl⟩ := List.exists_cons_of_ne_nil hmore
  have hlocate : d.locate q = .ok m := locate_eq_ok_iff.2 ⟨hfits.of_append.1, hne, hfits.of_append.2, hm⟩
  have hdestination := locate_eq_ok hlocate
  have hdir := (walk_cons_eq_ok_iff.1 hrest).1
  rw [hdestination] at hlocate hdir
  exact isDirectory_iff.2 ⟨hlocate, hdir⟩

theorem walk_of_removed (hd : ∀ m, d'.node? m = d.node? m ∨ d'.node? m = none) (here : Location)
    (names : List String) :
    d'.walk here names = d.walk here names ∨ d'.walk here names = .error .notFound := by
  induction names generalizing here with
  | nil => exact .inl rfl
  | cons name names ih =>
    rcases hd here with hn | hn
    · rw [walk, walk, hn]
      split
      · exact .inl rfl
      · exact .inl rfl
      · split
        · exact .inl rfl
        · exact ih _
    · rw [walk, hn]
      exact .inr rfl

/-- Where nodes are removed, a path leads where it led, or something is missing on its way. -/
theorem locate_of_removed (hwd : d'.workingDir = d.workingDir)
    (hd : ∀ m, d'.node? m = d.node? m ∨ d'.node? m = none) (p : Path) :
    d'.locate p = d.locate p ∨ d'.locate p = .error .notFound := by
  unfold locate
  split
  · exact .inl rfl
  · split
    · exact .inl rfl
    · split
      · exact .inl rfl
      · rw [hwd]
        exact walk_of_removed hd _ _

/-- What is not found is not found when something is removed. -/
theorem nodeAt_of_removed (hwd : d'.workingDir = d.workingDir)
    (hd : ∀ m, d'.node? m = d.node? m ∨ d'.node? m = none) (h : d.nodeAt p = .error .notFound) :
    d'.nodeAt p = .error .notFound := by
  rcases locate_of_removed hwd hd p with hl | hl
  · cases hlocate : d.locate p with
    | error e =>
      rw [nodeAt_of_error hlocate] at h
      cases h
      exact nodeAt_of_error (hl.trans hlocate)
    | ok l =>
      refine nodeAt_of_none (hl.trans hlocate) ?_
      simpa only [node?_of_nodeAt_notFound hlocate h, or_self] using hd l
  · exact nodeAt_of_error hl

/-! ## Operations -/

theorem makeDir_of_isDirectory (h : d.isDirectory p) : makeDir p d = .error .alreadyExists := by
  obtain ⟨hl, hn⟩ := isDirectory_iff.1 h
  unfold makeDir
  rw [hl]
  simp only [bind, Except.bind, hn]
  cases ending p <;> rfl

/-- No directory is made when it is there. -/
theorem run_makeDirs_of_isDirectory (h : p.text ≠ "" → d.isDirectory p) :
    (makeDirs p).run d = (.ok (), d) := by
  obtain ⟨above, habove⟩ : ∃ above, ancestors p = p :: above := by
    unfold ancestors
    cases p.text.length with
    | zero => exact ⟨[], rfl⟩
    | succ n => exact ⟨_, rfl⟩
  unfold makeDirs
  rw [habove, makeDirsUpTo]
  split
  · rfl
  · rename_i hempty
    have hdir : d.isDirectory p := h (by simpa using hempty)
    rw [run_bind, Action.run_attempt, Action.run_change, makeDir_of_isDirectory hdir]
    dsimp only
    rw [Action.run_get_bind, if_pos hdir]
    rfl

theorem write_of_file {content : Content} {f : File} (h : d.nodeAt p = .ok (.file f)) :
    write p content d = .ok (d.put (destination d.workingDir p) (.file { f with content })) := by
  obtain ⟨hl, hp, hn⟩ := nodeAt_eq_file_iff.1 h
  unfold write
  rw [hl]
  simp only [bind, Except.bind, hp, hn]
  rfl

/-- A file can be given the content that it has, and then nothing changes. -/
theorem exists_write_again {content : Content} (hp : d.isFile p)
    (hh : Holds content (d.node? (destination d.workingDir p))) :
    ∃ d', write p content d = .ok d' ∧ Alike d d' := by
  obtain ⟨f, hf⟩ := isFile_iff.1 hp
  have hn := (nodeAt_eq_file_iff.1 hf).2.2
  obtain ⟨g, hg, rfl⟩ := hh
  rw [hn] at hg
  cases hg
  refine ⟨_, write_of_file hf, rfl, fun l => ?_⟩
  have hne : destination d.workingDir p ≠ [] := ne_nil_of_ne_directory (d := d) (by simp [hn])
  rw [node?_put hne]
  split
  · rename_i hl
    rw [hl, hn]
  · rfl

/-! ## Replacements -/

theorem renameFile_of_isFile (hp : d.isFile p) (hq : d.isFile q) : ∃ d', renameFile p q d = .ok d' := by
  obtain ⟨f, hf⟩ := isFile_iff.1 hp
  obtain ⟨g, hg⟩ := isFile_iff.1 hq
  obtain ⟨hl, -, -⟩ := nodeAt_eq_file_iff.1 hf
  obtain ⟨hm, hname, hn⟩ := nodeAt_eq_file_iff.1 hg
  unfold renameFile
  rw [hl, hm]
  simp only [bind, Except.bind, hname, hf, hn]
  exact ⟨_, rfl⟩

/-- A file can be replaced when nothing is in the place of the temporary file. -/
theorem Replacement.exists_perform {r : Replacement} (htarget : d.isFile r.target)
    (hl : d.locate r.temporary = .ok (destination d.workingDir r.temporary))
    (hname : ending r.temporary = .name) (hn : d.node? (destination d.workingDir r.temporary) = none) :
    ∃ d', r.perform.run d = (.ok (), d') := by
  obtain ⟨d₁, hcreate⟩ : ∃ d₁, write r.temporary (.text "") d = .ok d₁ := by
    unfold write
    rw [hl]
    simp only [bind, Except.bind, hname, hn]
    exact ⟨_, rfl⟩
  obtain ⟨f, hf⟩ := isFile_iff.1 (isFile_of_write hcreate)
  obtain ⟨d₂, hfill⟩ : ∃ d₂, write r.temporary (.text r.text) d₁ = .ok d₂ := ⟨_, write_of_file hf⟩
  have htarget₂ : d₂.isFile r.target := (keeping_write hfill).isFile ((keeping_write hcreate).isFile htarget)
  obtain ⟨d', hrename⟩ := renameFile_of_isFile (isFile_of_write hfill) htarget₂
  have hrun : (r.run steps).run d = (.ok (), d') :=
    run_cons_eq_ok_iff.2 ⟨d₁, hcreate, run_cons_eq_ok_iff.2 ⟨d₂, hfill,
      run_cons_eq_ok_iff.2 ⟨d₂, rfl, run_cons_eq_ok_iff.2 ⟨d', hrename, rfl⟩⟩⟩⟩
  refine ⟨d', run_bind_eq_ok_iff.2 ⟨.ok (), d', ?_, rfl⟩⟩
  rw [Action.run_attempt, hrun]

end JobBundler.Disk
