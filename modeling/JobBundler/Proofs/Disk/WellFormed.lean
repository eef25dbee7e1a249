import JobBundler.Proofs.Disk.Frame

/-!
# Well-formed disks

What a disk lists is a tree of directories with files as its leaves (`Disk.WellFormed`), and all operations
leave it so. Nothing but a removal of directories makes one disappear (`Grows`).
-/

namespace JobBundler

namespace Disk

open JobBundler.Path (Component)

variable {d d' : Disk} {p q : Path} {l m : Location}

/-- No file stands in the place of a directory. -/
def IsTree (d : Disk) : Prop :=
  ∀ e ∈ d.nodes, ∀ n < e.1.length, d.node? (e.1.take n) = some .directory

instance (d : Disk) : Decidable d.IsTree :=
  inferInstanceAs (Decidable (∀ e ∈ d.nodes, ∀ n < e.1.length, _ = _))

theorem exists_of_node? {n : Node} (h : d.node? l = some n) (hl : l ≠ []) : (l, n) ∈ d.nodes := by
  rw [node?, if_neg hl] at h
  obtain ⟨e, he, rfl⟩ := Option.map_eq_some_iff.1 h
  obtain rfl : e.1 = l := by simpa using List.find?_some he
  exact List.mem_of_find?_eq_some he

theorem IsTree.node?_above {n : Node} (hd : d.IsTree) (h : d.node? l = some n) (hm : m <+: l)
    (hne : m ≠ l) : d.node? m = some .directory := by
  have hl : l ≠ [] := by
    rintro rfl
    exact hne (List.prefix_nil.1 hm)
  rw [List.prefix_iff_eq_take.1 hm]
  exact hd _ (exists_of_node? h hl) _ (Nat.lt_of_not_le fun hle => hne (hm.eq_of_length_le hle))

/-- All that a location stands below are directories. -/
def Carries (d : Disk) (l : Location) : Prop :=
  ∀ m, m <+: l → m ≠ l → d.node? m = some .directory

theorem Carries.of_node? {n : Node} (hd : d.IsTree) (h : d.node? l = some n) : d.Carries l :=
  fun _ hm hne => hd.node?_above h hm hne

theorem Carries.dropLast (h : d.Carries l) : d.Carries l.dropLast := by
  intro m hm hne
  apply h m (hm.trans (List.dropLast_prefix l))
  rintro rfl
  exact hne (hm.eq_of_length_le (by simp))

theorem Carries.concat (h : d.Carries l) (hl : d.node? l = some .directory) (name : String) :
    d.Carries (l ++ [name]) := by
  intro m hm hne
  rcases List.prefix_concat_iff.1 hm with rfl | hm
  · exact absurd rfl hne
  · by_cases hml : m = l
    · rw [hml, hl]
    · exact h m hm hml

/-- A walk from one directory to another leads to where something can be put. -/
theorem Carries.of_walk {here : Location} {names : List String} (h : d.Carries here)
    (hw : d.walk here names = .ok l) : d.Carries l := by
  induction names generalizing here with
  | nil =>
    cases hw
    exact h
  | cons name names ih =>
    obtain ⟨hdir, -, hw⟩ := walk_cons_eq_ok_iff.1 hw
    apply ih _ hw
    unfold step
    split
    · exact h
    · split
      · exact h.dropLast
      · exact h.concat hdir name

theorem Carries.of_locate (hd : d.IsTree) (h : d.locate p = .ok l) (hp : steps p ≠ []) : d.Carries l := by
  obtain ⟨-, -, -, hw⟩ := locate_eq_ok_iff.1 h
  obtain ⟨name, names, hsteps⟩ := List.exists_cons_of_ne_nil hp
  refine .of_walk ?_ hw
  rw [hsteps] at hw
  exact .of_node? hd (walk_cons_eq_ok_iff.1 hw).1

/-! ## Names -/

/-- The names on the way to the location are names. -/
def IsNamed (l : Location) : Prop :=
  ∀ name ∈ l, (Component.normal name).IsStep

instance (l : Location) : Decidable (IsNamed l) :=
  inferInstanceAs (Decidable (∀ name ∈ l, _))

theorem IsNamed.destination {wd : Location} (h : IsNamed wd) (p : Path) : IsNamed (destination wd p) := by
  intro name hname
  rw [Disk.destination, List.mem_reverse, Path.place_eq] at hname
  rcases List.mem_append.1 hname with hname | hname
  · exact Path.isStep_of_mem_names (List.mem_reverse.1 hname)
  · split at hname
    · cases hname
    · exact h name (List.mem_reverse.1 (List.mem_of_mem_drop hname))

/-! ## Well-formed disks -/

/-- What a file system can be: a tree, in which each node is listed once and has a name. -/
structure WellFormed (d : Disk) : Prop where
  tree : d.IsTree
  nodup : (d.nodes.map (·.1)).Nodup
  named : ∀ e ∈ d.nodes, IsNamed e.1
  workingDir : IsNamed d.workingDir

instance (d : Disk) : Decidable d.WellFormed :=
  decidable_of_iff (d.IsTree ∧ (d.nodes.map (·.1)).Nodup ∧ (∀ e ∈ d.nodes, IsNamed e.1) ∧
    IsNamed d.workingDir) ⟨fun ⟨h₁, h₂, h₃, h₄⟩ => ⟨h₁, h₂, h₃, h₄⟩, fun ⟨h₁, h₂, h₃, h₄⟩ => ⟨h₁, h₂, h₃, h₄⟩⟩

namespace WellFormed

theorem put (hd : d.WellFormed) (hl : d.Carries l) (hn : d.node? l ≠ some .directory) (hnamed : IsNamed l)
    (n : Node) : (d.put l n).WellFormed := by
  have hne : l ≠ [] := ne_nil_of_ne_directory hn
  have hmem {e : Location × Node} (he : e ∈ (d.put l n).nodes) : e = (l, n) ∨ e ∈ d.nodes ∧ e.1 ≠ l := by
    rcases List.mem_cons.1 he with rfl | he
    · exact .inl rfl
    · exact .inr (by simpa using List.mem_filter.1 he)
  constructor
  · intro e he k hk
    have hprefix : e.1.take k <+: e.1 := List.take_prefix k e.1
    have hshort : e.1.take k ≠ e.1 := by
      intro h
      have := congrArg List.length h
      rw [List.length_take] at this
      omega
    rw [node?_put hne]
    rcases hmem he with rfl | ⟨he, -⟩
    · rw [if_neg hshort]
      exact hl _ hprefix hshort
    · have hdir := hd.tree e he k hk
      have htake : e.1.take k ≠ l := by
        intro h
        rw [h] at hdir
        exact hn hdir
      rw [if_neg htake, hdir]
  · refine List.nodup_cons.2 ⟨?_, (List.filter_sublist.map _).nodup hd.nodup⟩
    intro h
    obtain ⟨e, he, rfl⟩ := List.mem_map.1 h
    simp at he
  · intro e he
    rcases hmem he with rfl | ⟨he, -⟩
    · exact hnamed
    · exact hd.named e he
  · exact hd.workingDir

theorem remove (hd : d.WellFormed) (l : Location) : (d.remove l).WellFormed := by
  have hmem {e : Location × Node} (he : e ∈ (d.remove l).nodes) : e ∈ d.nodes ∧ ¬l <+: e.1 := by
    obtain ⟨he, hl⟩ := List.mem_filter.1 he
    refine ⟨he, fun h => ?_⟩
    rw [List.isPrefixOf_iff_prefix.2 h] at hl
    cases hl
  constructor
  · intro e he k hk
    obtain ⟨he, hl⟩ := hmem he
    rw [node?_remove_of_not_below fun h => hl (h.trans (List.take_prefix k e.1))]
    exact hd.tree e he k hk
  · exact (List.filter_sublist.map _).nodup hd.nodup
  · exact fun e he => hd.named e (hmem he).1
  · exact hd.workingDir

end WellFormed

/-- A well-formed disk stays one. -/
def Preserves (d d' : Disk) : Prop :=
  d.WellFormed → d'.WellFormed

theorem Preserves.isFrame : IsFrame Preserves :=
  ⟨fun _ h => h, fun h h' hd => h' (h hd)⟩

/-- A well-formed disk stays one, and loses no directory. -/
def Grows (d d' : Disk) : Prop :=
  d.WellFormed → d'.WellFormed ∧ ∀ l, d.node? l = some .directory → d'.node? l = some .directory

theorem Grows.isFrame : IsFrame Grows where
  refl _ hd := ⟨hd, fun _ h => h⟩
  trans h h' hd := by
    obtain ⟨hd₁, hdirs⟩ := h hd
    obtain ⟨hd₂, hdirs'⟩ := h' hd₁
    exact ⟨hd₂, fun l hl => hdirs' l (hdirs l hl)⟩

theorem Grows.preserves (h : Grows d d') : Preserves d d' :=
  fun hd => (h hd).1

theorem WellFormed.grows_put {n : Node} (hd : d.WellFormed) (hl : d.Carries l)
    (hn : d.node? l ≠ some .directory) (hnamed : IsNamed l) :
    (d.put l n).WellFormed ∧ ∀ m, d.node? m = some .directory → (d.put l n).node? m = some .directory := by
  refine ⟨hd.put hl hn hnamed n, ?_⟩
  intro m hm
  rw [node?_put (ne_nil_of_ne_directory hn), if_neg, hm]
  rintro rfl
  exact hn hm

/-- Where a path with a name at its end leads to, something can be put. -/
theorem WellFormed.carries_of_locate (hd : d.WellFormed) (hl : d.locate p = .ok l) (hp : ending p ≠ .dots) :
    d.Carries l ∧ IsNamed l := by
  have hsteps : steps p ≠ [] := by
    intro h
    exact hp (by rw [ending, h]; rfl)
  exact ⟨.of_locate hd.tree hl hsteps, locate_eq_ok hl ▸ hd.workingDir.destination p⟩

theorem grows_put {n : Node} (hl : d.locate p = .ok l) (hp : ending p ≠ .dots)
    (hn : d.node? l ≠ some .directory) : Grows d (d.put l n) := by
  intro hd
  obtain ⟨hcarries, hnamed⟩ := hd.carries_of_locate hl hp
  exact hd.grows_put hcarries hn hnamed

theorem grows_write {content : Content} (h : write p content d = .ok d') : Grows d d' := by
  obtain ⟨f, -, ⟨hp, hl⟩, rfl, hn⟩ := write_eq_ok h
  apply grows_put hl
  · simp [hp]
  · rcases hn with hn | ⟨g, hn, -⟩ <;> simp [hn]

theorem grows_makeDir (h : makeDir p d = .ok d') : Grows d d' := by
  obtain ⟨hl, hp, hn, rfl⟩ := makeDir_eq_ok h
  exact grows_put hl hp (by simp [hn])

/-- Nothing stands below a file. -/
theorem grows_remove {f : File} (hl : d.node? l = some (.file f)) : Grows d (d.remove l) := by
  intro hd
  refine ⟨hd.remove l, fun m hm => ?_⟩
  rw [node?_remove_of_not_below, hm]
  intro hlm
  by_cases hne : l = m
  · rw [← hne, hl] at hm
    cases hm
  · have hdir := hd.tree.node?_above hm hlm hne
    rw [hl] at hdir
    cases hdir

theorem grows_removeFile (h : removeFile p d = .ok d') : Grows d d' := by
  obtain ⟨f, hf, rfl⟩ := removeFile_eq_ok h
  exact grows_remove hf

theorem grows_renameFile (h : renameFile p q d = .ok d') : Grows d d' := by
  obtain ⟨f, hf, ⟨hl, hq, hn⟩, rfl⟩ := renameFile_eq_ok h
  split
  · exact Grows.isFrame.refl d
  · intro hd
    obtain ⟨hcarries, hnamed⟩ := hd.carries_of_locate hl hq
    obtain ⟨hd₁, hdirs⟩ := grows_remove hf hd
    have hn₁ : (d.remove (destination d.workingDir p)).node? (destination d.workingDir q) ≠
        some .directory := by
      by_cases hbelow : destination d.workingDir p <+: destination d.workingDir q
      · rw [node?_remove_below hbelow (ne_nil_of_ne_directory hn)]
        simp
      · rwa [node?_remove_of_not_below hbelow]
    obtain ⟨hd₂, hdirs₂⟩ := hd₁.grows_put (fun m hm hne => hdirs m (hcarries m hm hne)) hn₁ hnamed
    exact ⟨hd₂, fun m hm => hdirs₂ m (hdirs m hm)⟩

/-! ## Actions -/

theorem grows_makeDirs (p : Path) : Keeps Grows (makeDirs p) :=
  keeps_makeDirsUpTo_of Grows.isFrame fun _ _ _ _ _ => grows_makeDir

theorem Replacement.grows_perform (r : Replacement) : Keeps Grows r.perform := by
  have hrun : Keeps Grows (r.run steps) := by
    refine .forM Grows.isFrame fun s _ => Action.keeps_change Grows.isFrame fun d d' h => ?_
    cases s with
    | create => exact grows_write h
    | fill => exact grows_write h
    | sync => cases h; exact Grows.isFrame.refl d
    | rename => exact grows_renameFile h
  exact keeps_perform_of Grows.isFrame hrun fun _ _ h => grows_removeFile h

end Disk

end JobBundler
