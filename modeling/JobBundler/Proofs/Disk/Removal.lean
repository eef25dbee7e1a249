import Mathlib.Logic.Relation
import JobBundler.Disk.Removal
import JobBundler.Proofs.Disk.Below
import JobBundler.Proofs.Disk.Keeping

/-!
# Removing a directory node by node

Whatever becomes of a removal, the disk has gone through single removals below the directory (`Removes`): all
that may have happened to a node is that it is gone, and nothing happens to the nodes elsewhere. When none of
them fails, everything below the directory is gone at the end (`exists_removeAll`).
-/

namespace JobBundler.Disk

variable {d d' : Disk} {p : Path} {wd l m : Location}

/-! ## One node -/

/-- A node that has been removed was there, with nothing below it if it was a directory. -/
theorem unlink_eq_ok (h : unlink l d = .ok d') :
    l ≠ [] ∧ (d.node? l = some .directory → d.below l = []) ∧ d' = d.remove l := by
  unfold unlink at h
  cases hn : d.node? l with
  | none => rw [hn] at h; cases h
  | some n =>
    rw [hn] at h
    cases n with
    | file f =>
      cases h
      exact ⟨ne_nil_of_ne_directory (d := d) (by simp [hn]), nofun, rfl⟩
    | directory =>
      dsimp only at h
      split at h
      · cases h
      · rename_i hne
        split at h
        · rename_i hbelow
          cases h
          exact ⟨hne, fun _ => List.isEmpty_iff.1 hbelow, rfl⟩
        · cases h

theorem unlink_of_file {f : File} (h : d.node? l = some (.file f)) : unlink l d = .ok (d.remove l) := by
  rw [unlink, h]

theorem below_eq_nil_iff : d.below l = [] ↔ ∀ e ∈ d.nodes, l <+: e.1 → e.1 = l := by
  rw [← List.map_eq_nil_iff (f := (·.1)), ← List.length_eq_zero_iff, (below_perm d l).length_eq,
    List.length_eq_zero_iff, List.filterMap_eq_nil_iff]
  constructor
  · rintro h e he ⟨names, heq⟩
    by_contra hne
    have hnone := h e.1 (List.mem_map_of_mem he)
    rw [namesDown_eq_some_iff.2 ⟨?_, heq⟩] at hnone
    · cases hnone
    · rintro rfl
      exact hne (heq ▸ List.append_nil l)
  · intro h m hm
    obtain ⟨e, he, rfl⟩ := List.mem_map.1 hm
    rw [Option.eq_none_iff_forall_ne_some]
    intro names hnames
    obtain ⟨hne, heq⟩ := namesDown_eq_some_iff.1 hnames
    have hsame := h e he ⟨names, heq⟩
    rw [← heq, List.append_right_eq_self] at hsame
    exact hne hsame

/-- Where nothing is, nothing has to be removed. -/
theorem remove_of_none (hn : d.node? l = none) (hbelow : d.below l = []) : d.remove l = d := by
  have hne : l ≠ [] := ne_nil_of_ne_directory (d := d) (by simp [hn])
  rw [node?, if_neg hne, Option.map_eq_none_iff, List.find?_eq_none] at hn
  have hall : d.nodes.filter (fun e => !l.isPrefixOf e.1) = d.nodes := by
    rw [List.filter_eq_self]
    intro e he
    rw [Bool.not_eq_true', Bool.eq_false_iff, ne_eq, List.isPrefixOf_iff_prefix]
    intro hl
    exact hn e he (by simpa using below_eq_nil_iff.1 hbelow e he hl)
  rw [remove, hall]

/-! ## Single removals -/

/-- Some of what is below a path has been removed, one node after the other. -/
def Removes (p : Path) : Disk → Disk → Prop :=
  Relation.ReflTransGen fun d d' => ∃ m, destination d.workingDir p <+: m ∧ unlink m d = .ok d'

namespace Removes

theorem isFrame (p : Path) : IsFrame (Removes p) :=
  ⟨fun _ => .refl, fun h h' => h.trans h'⟩

theorem single (hm : destination d.workingDir p <+: m) (h : unlink m d = .ok d') : Removes p d d' :=
  Relation.ReflTransGen.single ⟨m, hm, h⟩

theorem at_of_not_below {Q : Option Node → Option Node → Prop} (hQ : IsFrame Q)
    (hl : ¬destination wd p <+: l) (h : Removes p d d') : At wd l Q d d' := by
  induction h with
  | refl => exact (At.isFrame hQ).refl d
  | tail _ hstep ih =>
    obtain ⟨m, hm, hunlink⟩ := hstep
    obtain ⟨-, -, rfl⟩ := unlink_eq_ok hunlink
    refine (At.isFrame hQ).trans ih ?_
    rintro rfl
    exact at_remove hQ (fun hml => absurd (hm.trans hml) hl) rfl

theorem workingDir (h : Removes p d d') : d'.workingDir = d.workingDir := by
  induction h with
  | refl => rfl
  | tail _ hstep ih =>
    obtain ⟨m, -, hunlink⟩ := hstep
    obtain ⟨-, -, rfl⟩ := unlink_eq_ok hunlink
    exact ih

/-- A node is as before, or it is gone. -/
theorem node? (h : Removes p d d') (l : Location) : d'.node? l = d.node? l ∨ d'.node? l = none := by
  induction h with
  | refl => exact .inl rfl
  | tail _ hstep ih =>
    obtain ⟨m, -, hunlink⟩ := hstep
    obtain ⟨hne, -, rfl⟩ := unlink_eq_ok hunlink
    rw [node?_remove hne]
    split
    · exact .inr rfl
    · exact ih

theorem preserves (h : Removes p d d') : Preserves d d' := by
  induction h with
  | refl => exact Preserves.isFrame.refl d
  | tail _ hstep ih =>
    obtain ⟨m, -, hunlink⟩ := hstep
    obtain ⟨-, -, rfl⟩ := unlink_eq_ok hunlink
    exact fun hd => (ih hd).remove m

end Removes

/-! ## All that is in a directory -/

namespace Action

theorem run_unlessMissing (x : Action FileError Unit) (d : Disk) :
    x.unlessMissing.run d =
      match x.run d with
      | (.ok _, d') | (.error .notFound, d') => (.ok (), d')
      | (.error e, d') => (.error e, d') := by
  unfold unlessMissing
  rw [run_bind, run_attempt]
  rcases x.run d with ⟨e | _, d'⟩
  · cases e <;> rfl
  · rfl

theorem keeps_unlessMissing {R : Disk → Disk → Prop} {x : Action FileError Unit} (h : Keeps R x) :
    Keeps R x.unlessMissing := by
  intro d
  have hx := h d
  rw [run_unlessMissing]
  revert hx
  rcases x.run d with ⟨e | _, d'⟩
  · cases e <;> exact id
  · exact id

theorem unlessMissing_ne_notFound (x : Action FileError Unit) (d : Disk) :
    (x.unlessMissing.run d).1 ≠ .error .notFound := by
  rw [run_unlessMissing]
  rcases x.run d with ⟨e | _, d'⟩
  · cases e <;> exact nofun
  · exact nofun

end Action

theorem run_removeAll (p : Path) (d : Disk) :
    (removeAll p).run d =
      match d.nodeAt p with
      | .error e => (.error e, d)
      | .ok (.file _) => (.error .notDirectory, d)
      | .ok .directory =>
        (((d.contents (destination d.workingDir p)).forM fun m =>
            (Action.change (unlink m)).unlessMissing) >>= fun _ =>
          (Action.change (removeDir p)).unlessMissing).run d := by
  unfold removeAll
  rw [run_bind, Action.run_view]
  cases hn : d.nodeAt p with
  | error e => rfl
  | ok n =>
    cases n with
    | file f => rfl
    | directory =>
      dsimp only
      rw [run_bind, Action.run_view, (nodeAt_eq_ok hn).1]
      rfl

theorem mem_contents_iff : m ∈ d.contents l ↔ (l <+: m ∧ m ≠ l) ∧ ∃ e ∈ d.nodes, e.1 = m := by
  have hbelow (names : Location) : names ∈ (d.below l).map (·.1) ↔
      names ≠ [] ∧ ∃ e ∈ d.nodes, e.1 = l ++ names := by
    rw [(below_perm d l).mem_iff, List.mem_filterMap]
    constructor
    · rintro ⟨m, hm, hnames⟩
      obtain ⟨e, he, rfl⟩ := List.mem_map.1 hm
      obtain ⟨hne, heq⟩ := namesDown_eq_some_iff.1 hnames
      exact ⟨hne, e, he, heq.symm⟩
    · rintro ⟨hne, e, he, heq⟩
      exact ⟨e.1, List.mem_map_of_mem he, namesDown_eq_some_iff.2 ⟨hne, heq.symm⟩⟩
  rw [contents, List.mem_reverse, ← Function.comp_def, ← List.map_map, List.mem_map]
  constructor
  · rintro ⟨names, hnames, rfl⟩
    obtain ⟨hne, he⟩ := (hbelow names).1 hnames
    exact ⟨⟨List.prefix_append l names, by simpa using hne⟩, he⟩
  · rintro ⟨⟨⟨names, rfl⟩, hne⟩, he⟩
    exact ⟨names, (hbelow names).2 ⟨by simpa using hne, he⟩, rfl⟩

/-- No location is listed before what is in it. -/
theorem pairwise_contents (d : Disk) (l : Location) :
    (d.contents l).Pairwise fun a b => a <+: b → a = b := by
  rw [contents, List.pairwise_reverse, ← Function.comp_def, ← List.map_map, List.pairwise_map]
  refine (isSorted_below d l).imp fun {a b} hab hprefix => ?_
  have hba : b <+: a := (List.prefix_append_right_inj l).1 hprefix
  rw [List.le_antisymm hba.le (List.not_lt.1 hab)]

theorem removeDir_eq_ok (h : removeDir p d = .ok d') :
    d.locate p = .ok (destination d.workingDir p) ∧ unlink (destination d.workingDir p) d = .ok d' := by
  unfold removeDir at h
  cases hn : d.nodeAt p with
  | error e => rw [hn] at h; cases h
  | ok n =>
    rw [hn] at h
    cases n with
    | file f => cases h
    | directory =>
      have hl := (nodeAt_eq_ok hn).1
      rw [hl] at h
      exact ⟨hl, h⟩

theorem removeDir_eq_notFound (h : removeDir p d = .error .notFound) : d.nodeAt p = .error .notFound := by
  unfold removeDir at h
  cases hn : d.nodeAt p with
  | error e =>
    rw [hn] at h
    cases h
    rfl
  | ok n =>
    rw [hn] at h
    cases n with
    | file f => cases h
    | directory =>
      obtain ⟨hl, hnode⟩ := nodeAt_eq_ok hn
      rw [hl] at h
      change unlink _ d = _ at h
      rw [unlink, hnode] at h
      dsimp only at h
      split at h
      · cases h
      · split at h <;> cases h

theorem removes_contents (p : Path) (d : Disk) : Removes p d
    (((d.contents (destination d.workingDir p)).forM fun m =>
      (Action.change (unlink m)).unlessMissing).run d).2 := by
  -- The locations are those below the path from the working directory, which stays the same.
  have hR : IsFrame fun d₁ d₂ : Disk => d₁.workingDir = d.workingDir →
      d₂.workingDir = d.workingDir ∧ Removes p d₁ d₂ := by
    refine ⟨fun d₁ hwd => ⟨hwd, .refl⟩, fun h h' hwd => ?_⟩
    obtain ⟨hwd₁, h₁⟩ := h hwd
    obtain ⟨hwd₂, h₂⟩ := h' hwd₁
    exact ⟨hwd₂, h₁.trans h₂⟩
  refine (Keeps.forM hR (fun m hm => ?_) d rfl).2
  refine Action.keeps_unlessMissing (Action.keeps_change hR fun d₁ d₂ h hwd => ?_)
  have hremoves : Removes p d₁ d₂ := .single (hwd ▸ (mem_contents_iff.1 hm).1.1) h
  exact ⟨hremoves.workingDir.trans hwd, hremoves⟩

theorem removes_removeDir (p : Path) : Keeps (Removes p) (Action.change (removeDir p)).unlessMissing :=
  Action.keeps_unlessMissing <| Action.keeps_change (Removes.isFrame p) fun _ _ h =>
    .single List.prefix_rfl (removeDir_eq_ok h).2

/-- A removal goes through single removals, wherever it stops. -/
theorem removes_removeAll (p : Path) : Keeps (Removes p) (removeAll p) := by
  intro d
  rw [run_removeAll]
  cases hn : d.nodeAt p with
  | error e => exact .refl
  | ok n =>
    cases n with
    | file f => exact .refl
    | directory =>
      have hremoves := removes_contents p d
      dsimp only
      rw [run_bind]
      generalize ((d.contents (destination d.workingDir p)).forM fun m =>
        (Action.change (unlink m)).unlessMissing : Action FileError Unit).run d = y at hremoves
      obtain ⟨e | _, d₁⟩ := y
      · exact hremoves
      · exact hremoves.trans (removes_removeDir p d₁)

theorem run_unlink (hne : m ≠ []) (hbelow : d.below m = []) :
    (Action.change (unlink m)).unlessMissing.run d = (.ok (), d.remove m) := by
  rw [Action.run_unlessMissing, Action.run_change, unlink]
  cases hn : d.node? m with
  | none => exact congrArg (Prod.mk _) (remove_of_none hn hbelow).symm
  | some n =>
    cases n with
    | file f => rfl
    | directory =>
      dsimp only
      rw [if_neg hne, hbelow]
      rfl

/-- Nodes are removed one after the other when what is below one of them is removed before it. -/
theorem run_unlinks {ms : List Location} (hnil : [] ∉ ms)
    (horder : ms.Pairwise fun a b => a <+: b → a = b)
    (hall : ∀ e ∈ d.nodes, ∀ m ∈ ms, m <+: e.1 → e.1 ∈ ms) :
    (ms.forM fun m => (Action.change (unlink m)).unlessMissing).run d = (.ok (), ms.foldl Disk.remove d) := by
  induction ms generalizing d with
  | nil => rfl
  | cons m ms ih =>
    rw [List.pairwise_cons] at horder
    rw [List.mem_cons, not_or] at hnil
    have hbelow : d.below m = [] := by
      rw [below_eq_nil_iff]
      intro e he hm
      rcases List.mem_cons.1 (hall e he m List.mem_cons_self hm) with heq | hmem
      · exact heq
      · exact (horder.1 e.1 hmem hm).symm
    refine run_bind_eq_ok_iff.2 ⟨(), d.remove m, run_unlink (Ne.symm hnil.1) hbelow, ?_⟩
    refine ih hnil.2 horder.2 fun e he m' hm' hprefix => ?_
    obtain ⟨he, hkept⟩ := List.mem_filter.1 he
    rcases List.mem_cons.1 (hall e he m' (List.mem_cons_of_mem m hm') hprefix) with heq | hmem
    · rw [Bool.not_eq_true', Bool.eq_false_iff] at hkept
      exact absurd (List.isPrefixOf_iff_prefix.2 (heq ▸ List.prefix_rfl)) hkept
    · exact hmem

theorem mem_nodes_foldl_remove {ms : List Location} {e : Location × Node} :
    e ∈ (ms.foldl Disk.remove d).nodes ↔ e ∈ d.nodes ∧ ∀ m ∈ ms, ¬m <+: e.1 := by
  induction ms generalizing d with
  | nil => simp
  | cons m ms ih =>
    rw [List.foldl_cons, ih, List.forall_mem_cons, ← and_assoc]
    refine and_congr_left' ?_
    rw [remove, List.mem_filter, Bool.not_eq_true', Bool.eq_false_iff, ne_eq, List.isPrefixOf_iff_prefix]

/-- The contents of a directory are removed, whatever they are. -/
theorem exists_remove_contents (d : Disk) (l : Location) :
    ∃ d', ((d.contents l).forM fun m => (Action.change (unlink m)).unlessMissing).run d = (.ok (), d') ∧
      d'.below l = [] ∧ ∀ m, l <+: m → m ≠ l → d'.node? m = none := by
  have hgone : ∀ e ∈ ((d.contents l).foldl Disk.remove d).nodes, l <+: e.1 → e.1 = l := by
    intro e he hl
    obtain ⟨he, hkept⟩ := mem_nodes_foldl_remove.1 he
    by_contra hne
    exact hkept e.1 (mem_contents_iff.2 ⟨⟨hl, hne⟩, e, he, rfl⟩) List.prefix_rfl
  refine ⟨_, run_unlinks ?_ (pairwise_contents d l) ?_, below_eq_nil_iff.2 hgone, ?_⟩
  · intro hnil
    obtain ⟨⟨hl, hne⟩, -⟩ := mem_contents_iff.1 hnil
    exact hne (List.prefix_nil.1 hl).symm
  · intro e he m hm hme
    obtain ⟨⟨hl, hne⟩, -⟩ := mem_contents_iff.1 hm
    refine mem_contents_iff.2 ⟨⟨hl.trans hme, ?_⟩, e, he, rfl⟩
    rintro rfl
    exact hne (hme.eq_of_length_le hl.length_le)
  · intro m hl hne
    cases hn : ((d.contents l).foldl Disk.remove d).node? m with
    | none => rfl
    | some n =>
      have hnil : m ≠ [] := by
        rintro rfl
        exact hne (List.prefix_nil.1 hl).symm
      have hmem := exists_of_node? hn hnil
      exact absurd (hgone _ hmem hl) hne

/-- A directory can be removed with all that is in it. -/
theorem exists_removeAll (hl : d.locate p = .ok l) (hn : d.node? l = some .directory) (hne : l ≠ []) :
    ∃ d', (removeAll p).run d = (.ok (), d') := by
  obtain rfl := locate_eq_ok hl
  obtain ⟨d₁, hrun, hbelow, -⟩ := exists_remove_contents d (destination d.workingDir p)
  have hremoves := removes_contents p d
  rw [hrun] at hremoves
  rw [run_removeAll, nodeAt_of_directory hl hn]
  dsimp only
  rw [run_bind, hrun]
  dsimp only
  rw [Action.run_unlessMissing, Action.run_change]
  have hremoved : (∃ d', removeDir p d₁ = .ok d') ∨ removeDir p d₁ = .error .notFound := by
    unfold removeDir
    rcases locate_of_removed hremoves.workingDir hremoves.node? p with hlocate | hlocate
    · rw [hl] at hlocate
      rcases hremoves.node? (destination d.workingDir p) with hnode | hnode
      · rw [hn] at hnode
        rw [nodeAt_of_directory hlocate hnode, hlocate]
        refine .inl ⟨d₁.remove (destination d.workingDir p), ?_⟩
        change unlink _ d₁ = _
        rw [unlink, hnode, hbelow]
        exact if_neg hne
      · rw [nodeAt_of_none hlocate hnode]
        exact .inr rfl
    · rw [nodeAt_of_error hlocate]
      exact .inr rfl
  rcases hremoved with ⟨d', hremoved⟩ | hremoved
  · rw [hremoved]
    exact ⟨d', rfl⟩
  · rw [hremoved]
    exact ⟨d₁, rfl⟩

/-- When a directory counts as removed, its path leads to nothing any more. -/
theorem nodeAt_of_removeDir (h : (Action.change (removeDir p)).unlessMissing.run d = (.ok (), d')) :
    d'.nodeAt p = .error .notFound := by
  rw [Action.run_unlessMissing, Action.run_change] at h
  cases hremove : removeDir p d with
  | error e =>
    rw [hremove] at h
    cases e <;> cases h
    exact removeDir_eq_notFound hremove
  | ok d₁ =>
    rw [hremove] at h
    cases h
    obtain ⟨hl, hunlink⟩ := removeDir_eq_ok hremove
    have hremoves : Removes p d d' := .single List.prefix_rfl hunlink
    obtain ⟨hne, -, rfl⟩ := unlink_eq_ok hunlink
    rcases locate_of_removed hremoves.workingDir hremoves.node? p with hlocate | hlocate
    · exact nodeAt_of_none (hlocate.trans hl) (node?_remove_below List.prefix_rfl hne d)
    · exact nodeAt_of_error hlocate

/-- What is in a directory that has been removed is gone, and its path leads to nothing any more. -/
theorem removeAll_eq_ok (h : (removeAll p).run d = (.ok (), d')) :
    d.nodeAt p = .ok .directory ∧
      (∀ m, destination d.workingDir p <+: m → m ≠ destination d.workingDir p → d'.node? m = none) ∧
      d'.nodeAt p = .error .notFound := by
  rw [run_removeAll] at h
  cases hn : d.nodeAt p with
  | error e => rw [hn] at h; cases h
  | ok n =>
    rw [hn] at h
    cases n with
    | file f => cases h
    | directory =>
      obtain ⟨d₁, hrun, -, hgone⟩ := exists_remove_contents d (destination d.workingDir p)
      dsimp only at h
      rw [run_bind, hrun] at h
      dsimp only at h
      have hremoves := removes_removeDir p d₁
      rw [h] at hremoves
      refine ⟨rfl, fun m hm hne => ?_, nodeAt_of_removeDir h⟩
      simpa only [hgone m hm hne, or_self] using hremoves.node? m

/-- A removal that finds nothing has found nothing at the path. -/
theorem removeAll_eq_notFound (h : (removeAll p).run d = (.error .notFound, d')) :
    d.nodeAt p = .error .notFound ∧ d' = d := by
  rw [run_removeAll] at h
  cases hn : d.nodeAt p with
  | error e => rw [hn] at h; cases h; exact ⟨rfl, rfl⟩
  | ok n =>
    rw [hn] at h
    cases n with
    | file f => cases h
    | directory =>
      obtain ⟨d₁, hrun, -, -⟩ := exists_remove_contents d (destination d.workingDir p)
      dsimp only at h
      rw [run_bind, hrun] at h
      exact absurd (congrArg Prod.fst h) (Action.unlessMissing_ne_notFound _ d₁)

end JobBundler.Disk
