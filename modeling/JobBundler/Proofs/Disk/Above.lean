import JobBundler.Proofs.Disk.WellFormed
import JobBundler.Proofs.Disk.Files

/-!
# Directories made above a path

Where a path leads is decided by the nodes that it leads through (`locate_eq_of_passes`). When directories are
made above it, it may lead on, but what is read there does not change, unless something was missing on its way
and it goes up again or has a name that is too long (`readText_of_makes`).
-/

namespace JobBundler.Disk

open JobBundler.Path (trimSegments isSkipped)

variable {d d' : Disk} {p q : Path} {wd l : Location}

/-! ## Locations that a path leads through -/

/-- The path leads through the location and on from there. -/
def Passes (wd : Location) (p : Path) (l : Location) : Prop :=
  ∃ before after, steps p = before ++ after ∧ after ≠ [] ∧ before.foldl step (start wd p) = l

theorem walk_congr_of_passes {here : Location} {names : List String}
    (h : ∀ before after, names = before ++ after → after ≠ [] →
      d'.node? (before.foldl step here) = d.node? (before.foldl step here)) :
    d'.walk here names = d.walk here names := by
  induction names generalizing here with
  | nil => rfl
  | cons name names ih =>
    have hhere : d'.node? here = d.node? here := h [] (name :: names) rfl (by simp)
    have hrest := ih fun before after hnames => h (name :: before) after (congrArg (name :: ·) hnames)
    rw [walk, walk, hhere, hrest]

/-- Where a path leads is decided by the nodes that it leads through. -/
theorem locate_eq_of_passes (hwd : d'.workingDir = d.workingDir)
    (h : ∀ l, Passes d.workingDir p l → d'.node? l = d.node? l) : d'.locate p = d.locate p := by
  have hwalk : d'.walk (start d.workingDir p) (steps p) = d.walk (start d.workingDir p) (steps p) :=
    walk_congr_of_passes fun before after hsteps hafter => h _ ⟨before, after, hsteps, hafter, rfl⟩
  unfold locate
  rw [hwd, ← start, hwalk]

/-- A path that leads anywhere leads through directories. -/
theorem Passes.directory (h : Passes d.workingDir p l) {m : Location} (hl : d.locate p = .ok m) :
    d.node? l = some .directory := by
  obtain ⟨before, after, hsteps, hafter, rfl⟩ := h
  obtain ⟨-, -, -, hwalk⟩ := locate_eq_ok_iff.1 hl
  obtain ⟨name, names, rfl⟩ := List.exists_cons_of_ne_nil hafter
  rw [hsteps] at hwalk
  obtain ⟨m', hm', hrest⟩ := walk_append_eq_ok_iff.1 hwalk
  rw [start, ← eq_foldl_of_walk hm']
  exact (walk_cons_eq_ok_iff.1 hrest).1

/-! ## Paths above a path -/

/-- Some path above leads to the location. -/
def Above (wd : Location) (p : Path) (l : Location) : Prop :=
  ∃ parent q, p.parent? = some parent ∧ q ∈ ancestors parent ∧ q.text ≠ "" ∧ destination wd q = l

theorem Above.passes (h : Above wd p l) : Passes wd p l := by
  obtain ⟨parent, q, hparent, hq, hne, rfl⟩ := h
  obtain ⟨⟨more, hmore, hsteps⟩, htext⟩ := steps_of_parent? hparent
  obtain ⟨⟨more', hsteps'⟩, htext'⟩ := mem_ancestors_upTo hq
  refine ⟨steps q, more' ++ more, ?_, by simp [hmore], ?_⟩
  · rw [hsteps, hsteps', List.append_assoc]
  · rw [start, ← isAbsolute_of_prefix (htext'.trans htext) hne, ← start, foldl_steps_start]

/-- The path goes down all along, by names that a directory can have. -/
def IsPlain (p : Path) : Prop :=
  ∀ name ∈ steps p, name ≠ ".." ∧ name.utf8ByteSize ≤ maxNameSize

/-- A path has a name more than the one above it, unless that is empty. -/
theorem exists_name_of_parent? (h : p.parent? = some q) (hq : q.text ≠ "") :
    ∃ more, steps p = steps q ++ more ∧ ∃ name ∈ more, name ≠ "." := by
  have hcut := p.isCut_parts
  unfold Path.parent? at h
  split at h
  · rename_i last init htrim
    cases h
    obtain ⟨hlast, middle, rest, hall⟩ := exists_of_trimSegments htrim
    rw [isSkipped, Bool.or_eq_false_iff, beq_eq_false_iff_ne] at hlast
    have hslash : '/' ∉ last := hcut.slash_notMem last (by simp [← hall])
    refine ⟨(middle ++ last :: rest).flatMap textSteps, ?_, String.ofList last, ?_, ?_⟩
    · rw [steps_eq_flatMap, steps_ofParts hcut hall, ← hall, List.flatMap_append, List.append_assoc]
    · simp [textSteps_of_notMem hslash, hlast.1]
    · intro hdot
      apply hlast.2
      rw [← String.toList_ofList (l := last), hdot]
      rfl
  · cases h
    exact absurd rfl hq
  · cases h

/-! ## Plain paths -/

theorem step_of_ne_dots {name : String} (h : name ≠ "..") (l : Location) :
    step l name = if name = "." then l else l ++ [name] := by
  rw [step, if_neg h]

/-- Going down leads below where one is. -/
theorem prefix_foldl_step {names : List String} (h : ∀ name ∈ names, name ≠ "..") (l : Location) :
    l <+: names.foldl step l := by
  induction names generalizing l with
  | nil => exact List.prefix_rfl
  | cons name names ih =>
    rw [List.forall_mem_cons] at h
    refine List.IsPrefix.trans ?_ (ih h.2 _)
    rw [step_of_ne_dots h.1]
    split
    · exact List.prefix_rfl
    · exact List.prefix_append _ _

theorem foldl_step_ne {names : List String} (h : ∀ name ∈ names, name ≠ "..")
    (hname : ∃ name ∈ names, name ≠ ".") (l : Location) : names.foldl step l ≠ l := by
  obtain ⟨name, hmem, hne⟩ := hname
  obtain ⟨before, after, rfl⟩ := List.append_of_mem hmem
  rw [List.forall_mem_append, List.forall_mem_cons] at h
  obtain ⟨hbefore, hname, hafter⟩ := h
  intro heq
  have hlength := (prefix_foldl_step hbefore l).length_le
  have hlength' := (prefix_foldl_step hafter (step (before.foldl step l) name)).length_le
  rw [List.foldl_append, List.foldl_cons] at heq
  rw [heq, step_of_ne_dots hname, if_neg hne, List.length_append, List.length_singleton] at hlength'
  omega

theorem IsPlain.not_above (h : IsPlain p) : ¬Above wd p (destination wd p) := by
  rintro ⟨parent, q, hparent, hq, hne, heq⟩
  obtain ⟨⟨more', hsteps'⟩, htext'⟩ := mem_ancestors_upTo hq
  obtain ⟨-, htext⟩ := steps_of_parent? hparent
  have hparentne : parent.text ≠ "" := by
    intro hempty
    rw [hempty] at htext'
    exact hne (by simpa using htext')
  obtain ⟨more, hsteps, name, hname, hdot⟩ := exists_name_of_parent? hparent hparentne
  have hall : steps p = steps q ++ (more' ++ more) := by
    rw [hsteps, hsteps', List.append_assoc]
  have hstart : start wd q = start wd p := by
    rw [start, isAbsolute_of_prefix (htext'.trans htext) hne, ← start]
  have hdestination : (more' ++ more).foldl step (destination wd q) = destination wd q := by
    rw [← foldl_steps_start wd q, hstart, ← List.foldl_append, ← hall, foldl_steps_start, ← hstart,
      foldl_steps_start, heq]
  refine foldl_step_ne (fun n hn => (h n ?_).1) ⟨name, List.mem_append_right _ hname, hdot⟩ _ hdestination
  rw [hall]
  exact List.mem_append_right _ hn

/-! ## Missing directories -/

theorem IsTree.node?_foldl_step {here : Location} {names : List String} (hd : d.IsTree)
    (hnames : ∀ name ∈ names, name ≠ "..") (h : d.node? here = none) :
    d.node? (names.foldl step here) = none := by
  cases hn : d.node? (names.foldl step here) with
  | none => rfl
  | some n =>
    have hne : here ≠ names.foldl step here := by
      intro heq
      rw [← heq, h] at hn
      cases hn
    have hdir := hd.node?_above hn (prefix_foldl_step hnames here) hne
    rw [h] at hdir
    cases hdir

/-- Below a missing directory a walk down comes to its end, or to something missing. -/
theorem walk_of_makes_below {here : Location} {names : List String} (hd : d.IsTree)
    (h : ∀ l, Makes (d.node? l) (d'.node? l))
    (hnames : ∀ name ∈ names, name ≠ ".." ∧ name.utf8ByteSize ≤ maxNameSize) (hhere : d.node? here = none) :
    d'.walk here names = .error .notFound ∨ d'.walk here names = .ok (names.foldl step here) := by
  induction names generalizing here with
  | nil => exact .inr rfl
  | cons name names ih =>
    rw [List.forall_mem_cons] at hnames
    obtain ⟨⟨hup, hsize⟩, hnames⟩ := hnames
    rw [walk]
    rcases h here with hnode | ⟨-, hnode⟩
    · rw [hnode, hhere]
      exact .inl rfl
    · rw [hnode]
      dsimp only
      rw [if_neg (Nat.not_lt.2 hsize)]
      have hbelow : d.node? ([name].foldl step here) = none := hd.node?_foldl_step (by simpa using hup) hhere
      exact ih hnames hbelow

theorem walk_of_makes_missing {here : Location} {names : List String} (hd : d.IsTree)
    (h : ∀ l, Makes (d.node? l) (d'.node? l))
    (hnames : ∀ name ∈ names, name ≠ ".." ∧ name.utf8ByteSize ≤ maxNameSize)
    (hw : d.walk here names = .error .notFound) : d.node? (names.foldl step here) = none ∧
      (d'.walk here names = .error .notFound ∨ d'.walk here names = .ok (names.foldl step here)) := by
  induction names generalizing here with
  | nil => cases hw
  | cons name names ih =>
    cases hhere : d.node? here with
    | none =>
      exact ⟨hd.node?_foldl_step (fun n hn => (hnames n hn).1) hhere, walk_of_makes_below hd h hnames hhere⟩
    | some n =>
      rw [walk, hhere] at hw
      cases n with
      | file f => cases hw
      | directory =>
        rw [List.forall_mem_cons] at hnames
        have hsize : ¬name.utf8ByteSize > maxNameSize := Nat.not_lt.2 hnames.1.2
        have hnode : d'.node? here = some .directory := by
          rcases h here with hnode | ⟨hnone, -⟩
          · rw [hnode, hhere]
          · rw [hhere] at hnone
            cases hnone
        dsimp only at hw
        rw [if_neg hsize] at hw
        rw [walk, hnode]
        dsimp only
        rw [if_neg hsize]
        exact ih hnames.2 hw

theorem walk_of_makes {here : Location} {names : List String} (h : ∀ l, Makes (d.node? l) (d'.node? l))
    (hw : d.walk here names ≠ .error .notFound) : d'.walk here names = d.walk here names := by
  induction names generalizing here with
  | nil => rfl
  | cons name names ih =>
    rw [walk] at hw
    rw [walk, walk]
    rcases h here with hn | ⟨hn, -⟩
    · rw [hn]
      cases hhere : d.node? here with
      | none => rfl
      | some n =>
        rw [hhere] at hw
        cases n with
        | file f => rfl
        | directory =>
          dsimp only at hw ⊢
          split
          · rfl
          · rename_i hsize
            rw [if_neg hsize] at hw
            exact ih hw
    · rw [hn] at hw
      exact absurd rfl hw

/-- Making directories does not change where a path leads, unless something was missing on its way. -/
theorem locate_of_makes (hwd : d'.workingDir = d.workingDir) (h : ∀ l, Makes (d.node? l) (d'.node? l))
    (hp : d.locate p ≠ .error .notFound) : d'.locate p = d.locate p := by
  unfold locate at hp ⊢
  rw [hwd]
  split
  · rfl
  · split
    · rfl
    · split
      · rfl
      · rename_i hnul hempty hsize
        rw [if_neg hnul, if_neg hempty, if_neg hsize] at hp
        exact walk_of_makes h hp

/-- Where something was missing on the way of a plain path, there is nothing at its end. -/
theorem locate_of_makes_missing (hd : d.IsTree) (hwd : d'.workingDir = d.workingDir)
    (h : ∀ l, Makes (d.node? l) (d'.node? l)) (hplain : IsPlain p) (hp : d.locate p = .error .notFound) :
    d'.locate p = .error .notFound ∨
      d'.locate p = .ok (destination d.workingDir p) ∧ d.node? (destination d.workingDir p) = none := by
  unfold locate at hp ⊢
  rw [hwd]
  split
  · rename_i hnul
    rw [if_pos hnul] at hp
    cases hp
  · rename_i hnul
    rw [if_neg hnul] at hp
    split
    · exact .inl rfl
    · rename_i hempty
      rw [if_neg hempty] at hp
      split
      · exact .inl (by rwa [if_pos (by assumption)] at hp)
      · rename_i hsize
        rw [if_neg hsize] at hp
        obtain ⟨hnone, hwalk⟩ := walk_of_makes_missing hd h hplain hp
        rw [← foldl_steps_eq]
        exact hwalk.imp id fun hwalk => ⟨hwalk, hnone⟩

/-! ## What is read -/

theorem nodeAt_congr_of_locate (hl : d'.locate p = d.locate p)
    (hn : ∀ l, d.locate p = .ok l → d'.node? l = d.node? l) : d'.nodeAt p = d.nodeAt p := by
  unfold nodeAt
  rw [hl]
  cases h : d.locate p with
  | error e => rfl
  | ok l => simp only [bind, Except.bind, hn l h]

theorem readText_congr_of_nodeAt (h : d'.nodeAt p = d.nodeAt p) : d'.readText p = d.readText p := by
  unfold readText read
  rw [h]

theorem holds_of_readText {text : String} (h : d.readText p = .ok text) :
    Holds (.text text) (d.node? (destination d.workingDir p)) := by
  unfold readText read at h
  cases hn : d.nodeAt p with
  | error e => rw [hn] at h; cases h
  | ok n =>
    rw [hn] at h
    cases n with
    | directory => cases h
    | file f =>
      refine ⟨f, (nodeAt_eq_file_iff.1 hn).2.2, ?_⟩
      cases hc : f.content with
      | binary bytes =>
        simp only [bind, Except.bind, pure, Except.pure, hc] at h
        cases h
      | text t =>
        simp only [bind, Except.bind, pure, Except.pure, hc] at h
        cases h
        rfl

/-- A file that is there after directories were made was there before. -/
theorem Holds.of_makesOn {c : Content} {n n' : Option Node} {P : Prop} (h : Holds c n') (hm : MakesOn P n n') :
    Holds c n := by
  rcases hm with rfl | ⟨-, -, rfl⟩
  · exact h
  · obtain ⟨f, ⟨⟩, -⟩ := h

/-- Making directories above the path does not change what is read there. -/
def Steady (d : Disk) (p : Path) : Prop :=
  d.locate p ≠ .error .notFound ∨ IsPlain p

theorem readText_of_makes (hd : d.IsTree) (hwd : d'.workingDir = d.workingDir)
    (h : ∀ l, MakesOn (Above d.workingDir p l) (d.node? l) (d'.node? l)) (hp : d.Steady p) :
    d'.readText p = d.readText p := by
  have hmakes : ∀ l, Makes (d.node? l) (d'.node? l) := fun l => (h l).imp_right And.right
  apply readText_congr_of_nodeAt
  by_cases hmissing : d.locate p = .error .notFound
  · have hplain := hp.resolve_left (absurd hmissing)
    rw [nodeAt_of_error hmissing]
    rcases locate_of_makes_missing hd hwd hmakes hplain hmissing with hl | ⟨hl, hnone⟩
    · exact nodeAt_of_error hl
    · exact nodeAt_of_none hl (((h _).eq hplain.not_above).trans hnone)
  · refine nodeAt_congr_of_locate (locate_of_makes hwd hmakes hmissing) fun l hl => ?_
    obtain rfl := locate_eq_ok hl
    rcases h (destination d.workingDir p) with hnode | ⟨habove, hnone, -⟩
    · exact hnode
    · have hdir := habove.passes.directory hl
      rw [hnone] at hdir
      cases hdir

end JobBundler.Disk
