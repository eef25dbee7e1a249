import JobBundler.Disk.Replacement
import JobBundler.Proofs.Action
import JobBundler.Proofs.Disk.Location

/-!
# What changes leave alone

Each operation on a disk has one lemma that says what it has done when it succeeds. From these follows
what it may do to the node at one location (`At`), whatever the operation was meant for.
-/

namespace JobBundler.Disk

/-! ## What has been done -/

variable {d d' : Disk} {p : Path} {wd l : Location}

theorem write_eq_ok {content : Content} (h : write p content d = .ok d') :
    ∃ f : File, f.content = content ∧
      (ending p = .name ∧ d.locate p = .ok (destination d.workingDir p)) ∧
      d' = d.put (destination d.workingDir p) (.file f) ∧
      (d.node? (destination d.workingDir p) = none ∨
        ∃ g, d.node? (destination d.workingDir p) = some (.file g) ∧ f = { g with content }) := by
  unfold write at h
  cases hl : d.locate p with
  | error e => rw [hl] at h; cases h
  | ok l =>
    obtain rfl := locate_eq_ok hl
    rw [hl] at h
    simp only [bind, Except.bind] at h
    split at h
    · rename_i hp hn
      cases h
      exact ⟨_, rfl, ⟨hp, rfl⟩, rfl, .inl hn⟩
    · rename_i g hp hn
      cases h
      exact ⟨_, rfl, ⟨hp, rfl⟩, rfl, .inr ⟨g, hn, rfl⟩⟩
    · cases h

theorem makeDir_eq_ok (h : makeDir p d = .ok d') :
    d.locate p = .ok (destination d.workingDir p) ∧ ending p ≠ .dots ∧
      d.node? (destination d.workingDir p) = none ∧
      d' = d.put (destination d.workingDir p) .directory := by
  unfold makeDir at h
  cases hl : d.locate p with
  | error e => rw [hl] at h; cases h
  | ok l =>
    obtain rfl := locate_eq_ok hl
    rw [hl] at h
    simp only [bind, Except.bind] at h
    split at h
    · cases h
    · cases h
    · rename_i hn hp
      cases h
      exact ⟨rfl, hp, hn, rfl⟩

theorem removeFile_eq_ok (h : removeFile p d = .ok d') :
    ∃ f, d.node? (destination d.workingDir p) = some (.file f) ∧
      d' = d.remove (destination d.workingDir p) := by
  unfold removeFile at h
  cases hn : d.nodeAt p with
  | error e => rw [hn] at h; cases h
  | ok n =>
    obtain ⟨hl, hf⟩ := nodeAt_eq_ok hn
    rw [hn, hl] at h
    cases n with
    | file f => cases h; exact ⟨f, hf, rfl⟩
    | directory => cases h

theorem renameFile_eq_ok {q : Path} (h : renameFile p q d = .ok d') :
    ∃ f, d.node? (destination d.workingDir p) = some (.file f) ∧
      (d.locate q = .ok (destination d.workingDir q) ∧ ending q ≠ .dots ∧
        d.node? (destination d.workingDir q) ≠ some .directory) ∧
      d' = if destination d.workingDir p = destination d.workingDir q then d
        else (d.remove (destination d.workingDir p)).put (destination d.workingDir q) (.file f) := by
  unfold renameFile at h
  cases hl : d.locate p with
  | error e => rw [hl] at h; cases h
  | ok l =>
    cases hm : d.locate q with
    | error e => rw [hl, hm] at h; cases h
    | ok m =>
      obtain rfl := locate_eq_ok hl
      obtain rfl := locate_eq_ok hm
      rw [hl, hm] at h
      simp only [bind, Except.bind] at h
      split at h
      · cases h
      · rename_i hdots
        cases hn : d.nodeAt p with
        | error e => rw [hn] at h; cases h
        | ok n =>
          obtain ⟨-, hn'⟩ := nodeAt_eq_ok hn
          rw [hn] at h
          cases n with
          | directory => cases h
          | file f =>
            simp only at h
            split at h
            · cases h
            · split at h
              · cases h
              · rename_i hd
                cases h
                exact ⟨f, hn', ⟨rfl, hdots, hd⟩, rfl⟩

theorem ne_nil_of_ne_directory (h : d.node? l ≠ some .directory) : l ≠ [] := by
  rintro rfl
  exact h rfl

/-! ## What may have been done -/

/-- The working directory is as before, and `Q` relates the nodes at the location. -/
def At (wd l : Location) (Q : Option Node → Option Node → Prop) (d d' : Disk) : Prop :=
  d.workingDir = wd → d'.workingDir = wd ∧ Q (d.node? l) (d'.node? l)

variable {Q : Option Node → Option Node → Prop}

theorem At.isFrame (hQ : IsFrame Q) : IsFrame (At wd l Q) where
  refl d h := ⟨h, hQ.refl _⟩
  trans h h' hd := by
    obtain ⟨hd₁, hq₁⟩ := h hd
    obtain ⟨hd₂, hq₂⟩ := h' hd₁
    exact ⟨hd₂, hQ.trans hq₁ hq₂⟩

theorem at_put (hQ : IsFrame Q) {m : Location} {n : Node} (hm : m ≠ [])
    (h : m = l → Q (d.node? l) (some n)) : At wd l Q d (d.put m n) := by
  refine fun hd => ⟨hd, ?_⟩
  rw [node?_put hm]
  split
  · rename_i hl
    exact h hl.symm
  · exact hQ.refl _

theorem node?_remove_below {m : Location} (h : m <+: l) (hl : l ≠ []) (d : Disk) :
    (d.remove m).node? l = none := by
  by_cases hm : m = []
  · subst hm
    simp [node?, remove, hl]
  · rw [node?_remove hm, if_pos (List.isPrefixOf_iff_prefix.2 h)]

theorem node?_remove_of_not_below {m : Location} (h : ¬m <+: l) (d : Disk) :
    (d.remove m).node? l = d.node? l := by
  have hm : m ≠ [] := by rintro rfl; exact h List.nil_prefix
  rw [node?_remove hm, if_neg fun hp => h (List.isPrefixOf_iff_prefix.1 hp)]

theorem at_remove (hQ : IsFrame Q) {m : Location} (h : m <+: l → Q (d.node? l) none) :
    At wd l Q d (d.remove m) := by
  refine fun hd => ⟨hd, ?_⟩
  by_cases hm : m <+: l
  · by_cases hl : l = []
    · subst hl
      exact hQ.refl _
    · rw [node?_remove_below hm hl]
      exact h hm
  · rw [node?_remove_of_not_below hm]
    exact hQ.refl _

/-- Nothing happens to the node. -/
def Unchanged (n n' : Option Node) : Prop :=
  n' = n

theorem Unchanged.isFrame : IsFrame Unchanged :=
  ⟨fun _ => rfl, fun h h' => h'.trans h⟩

/-- What happens to nodes when directories are made. -/
def Makes (n n' : Option Node) : Prop :=
  n' = n ∨ n = none ∧ n' = some .directory

theorem Makes.isFrame : IsFrame Makes where
  refl _ := .inl rfl
  trans h h' := by
    rcases h with rfl | ⟨rfl, rfl⟩
    · exact h'
    · rcases h' with rfl | ⟨h, -⟩
      · exact .inr ⟨rfl, rfl⟩
      · cases h

theorem at_makeDir (h : makeDir p d = .ok d') : At wd l Makes d d' := by
  obtain ⟨-, -, hn, rfl⟩ := makeDir_eq_ok h
  refine at_put Makes.isFrame (ne_nil_of_ne_directory (d := d) (by simp [hn])) ?_
  rintro rfl
  exact .inr ⟨hn, rfl⟩

theorem keeps_makeDirsUpTo_of {R : Disk → Disk → Prop} (hR : IsFrame R) {ps : List Path}
    (h : ∀ p ∈ ps, p.text ≠ "" → ∀ d d', makeDir p d = .ok d' → R d d') :
    Keeps R (makeDirsUpTo ps) := by
  have hcheck (p : Path) (e : FileError) :
      Keeps R (do if (← get).isDirectory p then return else throw e : Action FileError Unit) := by
    refine .bind hR (.get hR) fun d => ?_
    split
    · exact .pure hR _
    · exact .throw hR _
  induction ps with
  | nil => exact .throw hR _
  | cons p above ih =>
    have ih := ih fun q hq => h q (List.mem_cons_of_mem p hq)
    unfold makeDirsUpTo
    split
    · exact .pure hR _
    · rename_i hempty
      have hmake : Keeps R
          (Action.attempt (.change (makeDir p)) : Action FileError (Except FileError Unit)) :=
        Action.keeps_attempt (Action.keeps_change hR (h p List.mem_cons_self (by simpa using hempty)))
      refine .bind hR hmake fun r => ?_
      rcases r with e | a
      · cases e
        all_goals first | exact hcheck p _ | refine .bind hR ih fun _ => ?_
        refine .bind hR hmake fun r => ?_
        rcases r with e | a
        · exact hcheck p e
        · exact .pure hR _
      · exact .pure hR _

theorem keeps_makeDirs (p : Path) : Keeps (At wd l Makes) (makeDirs p) :=
  keeps_makeDirsUpTo_of (At.isFrame Makes.isFrame) fun _ _ _ _ _ => at_makeDir

/-! ## Contents -/

/-- The node is a file with this content. -/
def Holds (c : Content) (n : Option Node) : Prop :=
  ∃ f : File, n = some (.file f) ∧ f.content = c

/-- What was a file with this content still is. -/
def Retains (c : Content) (n n' : Option Node) : Prop :=
  Holds c n → Holds c n'

variable {c : Content}

theorem Retains.isFrame : IsFrame (Retains c) where
  refl _ h := h
  trans h h' hn := h' (h hn)

theorem Makes.retains {n n' : Option Node} (h : Makes n n') : Retains c n n' := by
  rcases h with rfl | ⟨rfl, -⟩
  · exact id
  · rintro ⟨f, hf, -⟩
    cases hf

theorem At.mono {Q' : Option Node → Option Node → Prop} (h : ∀ n n', Q n n' → Q' n n')
    (hd : At wd l Q d d') : At wd l Q' d d' :=
  fun hwd => (hd hwd).imp_right (h _ _)

theorem keeps_makeDirs_retains (p : Path) : Keeps (At wd l (Retains c)) (makeDirs p) :=
  fun d => (keeps_makeDirs p d).mono fun _ _ => Makes.retains

theorem holds_of_write {content : Content} (h : write p content d = .ok d') :
    d'.workingDir = d.workingDir ∧ Holds content (d'.node? (destination d.workingDir p)) := by
  obtain ⟨f, hf, -, rfl, hn⟩ := write_eq_ok h
  refine ⟨rfl, f, ?_, hf⟩
  rw [node?_put (ne_nil_of_ne_directory (d := d) _), if_pos rfl]
  rcases hn with hn | ⟨g, hn, -⟩ <;> simp [hn]

theorem at_write_of_ne {content : Content} (hQ : IsFrame Q) (h : destination wd p ≠ l)
    (hw : write p content d = .ok d') : At wd l Q d d' := by
  rintro rfl
  obtain ⟨f, -, -, rfl, hn⟩ := write_eq_ok hw
  refine at_put hQ (ne_nil_of_ne_directory (d := d) ?_) (absurd · h) rfl
  rcases hn with hn | ⟨g, hn, -⟩ <;> simp [hn]

theorem at_write {content : Content} (h : destination wd p = l → content = c)
    (hw : write p content d = .ok d') : At wd l (Retains c) d d' := by
  by_cases hl : destination wd p = l
  · rintro rfl
    obtain ⟨hwd, hh⟩ := holds_of_write hw
    rw [hl, h hl] at hh
    exact ⟨hwd, fun _ => hh⟩
  · exact at_write_of_ne Retains.isFrame hl hw

theorem at_removeFile (hQ : IsFrame Q) (h : ¬destination wd p <+: l) (hr : removeFile p d = .ok d') :
    At wd l Q d d' := by
  rintro rfl
  obtain ⟨-, -, rfl⟩ := removeFile_eq_ok hr
  exact at_remove hQ (absurd · h) rfl

theorem at_renameFile_of_ne {q : Path} (hQ : IsFrame Q) (h : ¬destination wd p <+: l)
    (hne : destination wd q ≠ l) (hr : renameFile p q d = .ok d') : At wd l Q d d' := by
  rintro rfl
  obtain ⟨f, -, ⟨-, -, hq⟩, rfl⟩ := renameFile_eq_ok hr
  split
  · exact (At.isFrame hQ).refl d rfl
  · exact (At.isFrame hQ).trans (at_remove hQ (absurd · h))
      (at_put hQ (ne_nil_of_ne_directory hq) (absurd · hne)) rfl

theorem at_renameFile {q : Path} (h : ¬destination wd p <+: l)
    (hc : destination wd q = l → Holds c (d.node? (destination wd p))) (hr : renameFile p q d = .ok d') :
    At wd l (Retains c) d d' := by
  rintro rfl
  obtain ⟨f, hf, ⟨-, -, hq⟩, rfl⟩ := renameFile_eq_ok hr
  have hR : IsFrame (At d.workingDir l (Retains c)) := At.isFrame Retains.isFrame
  split
  · exact hR.refl d rfl
  · refine hR.trans (at_remove Retains.isFrame (absurd · h))
      (at_put Retains.isFrame (ne_nil_of_ne_directory hq) ?_) rfl
    intro hl _
    obtain ⟨g, hg, hgc⟩ := hc hl
    rw [hf] at hg
    cases hg
    exact ⟨f, rfl, hgc⟩

/-! ## Directories -/

/-- What is a directory stays one. -/
def StaysDirectory (n n' : Option Node) : Prop :=
  n = some .directory → n' = some .directory

theorem StaysDirectory.isFrame : IsFrame StaysDirectory :=
  ⟨fun _ h => h, fun h h' hn => h' (h hn)⟩

theorem Makes.staysDirectory {n n' : Option Node} (h : Makes n n') : StaysDirectory n n' := by
  rcases h with rfl | ⟨rfl, -⟩
  · exact id
  · rintro ⟨⟩

theorem at_write_staysDirectory {content : Content} (hw : write p content d = .ok d') :
    At wd l StaysDirectory d d' := by
  obtain ⟨f, -, -, rfl, hn⟩ := write_eq_ok hw
  refine at_put StaysDirectory.isFrame (ne_nil_of_ne_directory (d := d) ?_) ?_
  · rcases hn with hn | ⟨g, hn, -⟩ <;> simp [hn]
  · rintro rfl h
    rcases hn with hn | ⟨g, hn, -⟩ <;> rw [hn] at h <;> cases h

/-! ## Replacements -/

namespace Replacement

variable {r : Replacement}

theorem run_cons_eq_ok_iff {s : Step} {ss : List Step} :
    (r.run (s :: ss)).run d = (.ok (), d') ↔
      ∃ d₁, r.apply s d = .ok d₁ ∧ (r.run ss).run d₁ = (.ok (), d') := by
  show ((Action.change (r.apply s) >>= fun _ => r.run ss).run d = _) ↔ _
  rw [run_bind_eq_ok_iff]
  constructor
  · rintro ⟨_, d₁, h, h'⟩
    exact ⟨d₁, Action.run_change_eq_ok_iff.1 h, h'⟩
  · rintro ⟨d₁, h, h'⟩
    exact ⟨(), d₁, Action.run_change_eq_ok_iff.2 h, h'⟩

/-- The steps before the last one leave the new text in the temporary file. -/
theorem holds_of_run (h : (r.run [.create, .fill, .sync]).run d = (.ok (), d')) :
    d'.workingDir = d.workingDir ∧
      Holds (.text r.text) (d'.node? (destination d.workingDir r.temporary)) := by
  obtain ⟨d₁, hcreate, h⟩ := run_cons_eq_ok_iff.1 h
  obtain ⟨d₂, hfill, h⟩ := run_cons_eq_ok_iff.1 h
  obtain ⟨d₃, hsync, h⟩ := run_cons_eq_ok_iff.1 h
  cases hsync
  cases h
  obtain ⟨hwd₁, -⟩ := holds_of_write hcreate
  obtain ⟨hwd₂, hh⟩ := holds_of_write hfill
  rw [hwd₁] at hwd₂ hh
  exact ⟨hwd₂, hh⟩

theorem run_steps_eq (r : Replacement) :
    r.run steps = r.run [.create, .fill, .sync] >>= fun _ => Action.change (r.apply .rename) := by
  show List.forM ([Step.create, .fill, .sync] ++ [.rename]) _ = _
  simp [run]

/-- The steps before the last one write the temporary file and do nothing else. -/
theorem keeps_writing {R : Disk → Disk → Prop} (hR : IsFrame R)
    (h : ∀ content d d', write r.temporary content d = .ok d' → R d d') :
    Keeps R (r.run [.create, .fill, .sync]) := by
  refine .forM hR fun s hs => Action.keeps_change hR fun d d' hs' => ?_
  simp only [List.mem_cons, List.not_mem_nil, or_false] at hs
  rcases hs with rfl | rfl | rfl
  · exact h _ d d' hs'
  · exact h _ d d' hs'
  · cases hs'
    exact hR.refl d

theorem keeps_run_of_ne (hQ : IsFrame Q) (h : destination wd r.temporary ≠ l) :
    Keeps (At wd l Q) (r.run [.create, .fill, .sync]) :=
  keeps_writing (At.isFrame hQ) fun _ _ _ hw => at_write_of_ne hQ h hw

/-- A run may end with another try to remove the temporary file. -/
theorem keeps_perform_of {R : Disk → Disk → Prop} (hR : IsFrame R) (hrun : Keeps R (r.run steps))
    (h : ∀ d d', removeFile r.temporary d = .ok d' → R d d') : Keeps R r.perform := by
  refine .bind hR (Action.keeps_attempt hrun) fun res => ?_
  rcases res with e | a
  · refine .bind hR (.bind hR ?_ fun _ => .pure hR _) fun _ => .throw hR _
    exact Action.keeps_attempt (Action.keeps_change hR h)
  · exact .pure hR _

theorem keeps_run (ht : ¬destination wd r.temporary <+: l)
    (hc : destination wd r.target = l → .text r.text = c) :
    Keeps (At wd l (Retains c)) (r.run steps) := by
  have hR : IsFrame (At wd l (Retains c)) := At.isFrame Retains.isFrame
  have hne : destination wd r.temporary ≠ l := fun h => ht (h ▸ List.prefix_rfl)
  rw [run_steps_eq]
  refine .bind_of_ok (keeps_run_of_ne Retains.isFrame hne) fun d _ d₁ hrun hw => ?_
  rw [Action.run_change]
  cases hren : r.apply .rename d₁ with
  | error e => exact hw
  | ok d₂ =>
    refine fun hwd => hR.trans hw (at_renameFile ht (fun h => ?_) hren) hwd
    obtain ⟨-, hh⟩ := holds_of_run hrun
    rw [hwd] at hh
    exact hc h ▸ hh

theorem keeps_perform_of_ne (hQ : IsFrame Q) (ht : ¬destination wd r.temporary <+: l)
    (hne : destination wd r.target ≠ l) : Keeps (At wd l Q) r.perform := by
  have hR : IsFrame (At wd l Q) := At.isFrame hQ
  have htemporary : destination wd r.temporary ≠ l := fun h => ht (h ▸ List.prefix_rfl)
  refine keeps_perform_of hR ?_ fun _ _ h => at_removeFile hQ ht h
  rw [run_steps_eq]
  refine .bind hR (keeps_run_of_ne hQ htemporary) fun _ => Action.keeps_change hR fun _ _ h => ?_
  exact at_renameFile_of_ne hQ ht hne h

theorem keeps_perform (ht : ¬destination wd r.temporary <+: l)
    (hc : destination wd r.target = l → .text r.text = c) :
    Keeps (At wd l (Retains c)) r.perform :=
  keeps_perform_of (At.isFrame Retains.isFrame) (keeps_run ht hc)
    fun _ _ h => at_removeFile Retains.isFrame ht h

theorem perform_eq_ok (h : r.perform.run d = (.ok (), d')) :
    ∃ d₁, Fits r.temporary.text ∧ d₁.workingDir = d.workingDir ∧
      Holds (.text r.text) (d₁.node? (destination d.workingDir r.temporary)) ∧
      renameFile r.temporary r.target d₁ = .ok d' := by
  obtain ⟨res, d₁, hrun, h⟩ := run_bind_eq_ok_iff.1 h
  rw [Action.run_attempt] at hrun
  rcases hres : (r.run steps).run d with ⟨e | a, d₂⟩ <;> rw [hres] at hrun <;> cases hrun
  · obtain ⟨_, d₃, -, h⟩ := run_bind_eq_ok_iff.1 h
    cases h
  · cases h
    obtain ⟨d₁, hcreate, h₁⟩ := run_cons_eq_ok_iff.1 hres
    obtain ⟨d₂, hfill, h₂⟩ := run_cons_eq_ok_iff.1 h₁
    obtain ⟨d₃, hsync, h₃⟩ := run_cons_eq_ok_iff.1 h₂
    obtain ⟨d₄, hrename, h₄⟩ := run_cons_eq_ok_iff.1 h₃
    cases h₄
    have hwrite : (r.run [.create, .fill, .sync]).run d = (.ok (), d₃) :=
      run_cons_eq_ok_iff.2 ⟨d₁, hcreate, run_cons_eq_ok_iff.2 ⟨d₂, hfill,
        run_cons_eq_ok_iff.2 ⟨d₃, hsync, rfl⟩⟩⟩
    obtain ⟨hwd, hh⟩ := holds_of_run hwrite
    obtain ⟨-, -, ⟨-, hlocate⟩, -⟩ := write_eq_ok hcreate
    obtain ⟨hnul, -, hsize, -⟩ := locate_eq_ok_iff.1 hlocate
    exact ⟨d₃, ⟨hnul, hsize⟩, hwd, hh, hrename⟩

/-- A replacement that succeeds leaves the new text in the target and nothing in the temporary
file. -/
theorem of_run_perform (h : r.perform.run d = (.ok (), d')) :
    Holds (.text r.text) (d'.node? (destination d.workingDir r.target)) ∧
      (¬destination d.workingDir r.temporary <+: destination d.workingDir r.target →
        destination d.workingDir r.temporary <+: l → l ≠ [] → d'.node? l = none) := by
  obtain ⟨d₁, -, hwd, ⟨g, hg, hgt⟩, hr⟩ := perform_eq_ok h
  obtain ⟨f, hf, ⟨-, -, hdir⟩, rfl⟩ := renameFile_eq_ok hr
  rw [← hwd] at hg ⊢
  rw [hf] at hg
  cases hg
  by_cases hne : destination d₁.workingDir r.temporary = destination d₁.workingDir r.target
  · rw [if_pos hne]
    exact ⟨⟨g, hne ▸ hf, hgt⟩, fun hnot => absurd (hne ▸ List.prefix_rfl) hnot⟩
  · rw [if_neg hne, node?_put (ne_nil_of_ne_directory hdir), if_pos rfl]
    refine ⟨⟨g, rfl, hgt⟩, fun hnot hbelow hnil => ?_⟩
    have hl : l ≠ destination d₁.workingDir r.target := by
      rintro rfl
      exact hnot hbelow
    rw [node?_put (ne_nil_of_ne_directory hdir), if_neg hl, node?_remove_below hbelow hnil]

end Replacement

end JobBundler.Disk
