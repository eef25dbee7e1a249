import JobBundler.Proofs.Manifest
import JobBundler.Proofs.Manifest.Saving

/-!
# Several writers of one manifest

Writers that take turns on one disk (`Turn`) all fill the same temporary file. As long as no two of them are
between opening and renaming or removing it, whoever loads the manifest finds the one that was there before or
one of those being written, in full (`Manifest.load_of_exclusive`): what is known of each writer is kept by the
steps of the others (`Scene.Sound.turn`). If another writer empties the file before it is renamed, a manifest
without any text is found (`interleaved_saves_lose_text`).
-/

namespace JobBundler

open Disk

namespace Disk.Replacement

variable {ι : Type}

/-! ## Turns -/

/-- A disk and how far its writers are. -/
structure Scene (ι : Type) where
  disk : Disk
  stage : ι → Stage

/-- No writer has begun. -/
def Scene.start (d : Disk) : Scene ι :=
  ⟨d, fun _ => .preparing⟩

/-- The stage of a writer after a step of another one, which may have moved the file that it has open. -/
def Stage.follow (moves : Displacement) : Stage → Stage
  | .filling file size => .filling (file.bind moves) size
  | s => s

/-- A step of one of the writers. -/
def Turn (r : ι → Replacement) (x y : Scene ι) : Prop :=
  ∃ i moves, (r i).Advances (x.stage i) x.disk moves (y.stage i) y.disk ∧
    ∀ j, j ≠ i → y.stage j = (x.stage j).follow moves

/-- The temporary file is open, or is to be renamed or removed. -/
def Stage.IsBusy : Stage → Prop
  | .filling .. | .renaming | .failing .. => True
  | .preparing | .done .. => False

/-- No two writers are at the temporary file at once. -/
def Scene.IsExclusive (x : Scene ι) : Prop :=
  ∀ i j, (x.stage i).IsBusy → (x.stage j).IsBusy → i = j

/-- The writers take turns and keep away from each other. -/
abbrev TakesTurns (r : ι → Replacement) : Scene ι → Scene ι → Prop :=
  Relation.ReflTransGen fun x y => Turn r x y ∧ y.IsExclusive

variable {r : ι → Replacement} {r' : Replacement} {s s' : Stage} {moves : Displacement} {d d' d₀ : Disk}
variable {p : Path}

/-! ## What a step does for the others -/

theorem Stage.follow_some (s : Stage) : s.follow some = s := by
  cases s with
  | filling file size => cases file <;> rfl
  | _ => rfl

theorem Stage.follow_of_not_isBusy (h : ¬s.IsBusy) : s.follow moves = s := by
  cases s with
  | filling => exact absurd trivial h
  | _ => rfl

theorem Stage.IsBusy.of_follow (h : (s.follow moves).IsBusy) : s.IsBusy := by
  cases s with
  | filling => trivial
  | _ => exact h

/-- Nothing needs to be known of a writer that has not opened the temporary file. -/
theorem Advances.sound_of_isBusy (h : r'.Advances s d moves s' d') (hs : s.IsBusy → r'.Sound d s) :
    r'.Sound d s := by
  cases h with
  | makeDir | notPrepared | create | notCreated => trivial
  | _ => exact hs trivial

/-- Away from the temporary file, all that a writer does is to make directories. -/
theorem Advances.makes (h : r'.Advances s d moves s' d') (hs : ¬s.IsBusy) (hs' : ¬s'.IsBusy) :
    moves = some ∧ ∀ l, Makes (d.node? l) (d'.node? l) := by
  cases h with
  | makeDir _ _ _ h =>
    refine ⟨rfl, fun l => ?_⟩
    obtain ⟨-, -, hnone, rfl⟩ := makeDir_eq_ok h
    rw [node?_put (ne_nil_of_ne_directory (d := d) (by simp [hnone]))]
    split
    · rename_i hl
      exact .inr ⟨hl ▸ hnone, rfl⟩
    · exact .inl rfl
  | notPrepared => exact ⟨rfl, fun l => .inl rfl⟩
  | create | notCreated => exact absurd trivial hs'
  | _ => exact absurd trivial hs

theorem Sound.of_makes (h : r'.Sound d s) (hs : s.IsBusy) (hwd : d'.workingDir = d.workingDir)
    (hopened : r'.Opened d → r'.Opened d') (hmakes : ∀ l, Makes (d.node? l) (d'.node? l)) : r'.Sound d' s := by
  have ht : r'.temporaryAt d' = r'.temporaryAt d := by
    rw [temporaryAt, hwd]
  cases s with
  | preparing | done => exact absurd hs id
  | filling file size =>
    obtain ⟨ho, hfile, hsize, hholds⟩ := h
    exact ⟨hopened ho, by rw [ht, hfile], hsize, by rw [ht]; exact (hmakes _).retains hholds⟩
  | failing made e => exact fun hmade => hopened (h hmade)
  | _ => exact ⟨hopened h.1, by rw [ht]; exact (hmakes _).retains h.2⟩

/-! ## What holds in the course of all turns -/

/-- What is known when writers have replaced the file at a path on a disk, and may still do so. -/
structure Scene.Sound (r : ι → Replacement) (p : Path) (d₀ : Disk) (x : Scene ι) : Prop where
  workingDir : x.disk.workingDir = d₀.workingDir
  wellFormed : x.disk.WellFormed
  exclusive : x.IsExclusive
  writers (i : ι) (h : (x.stage i).IsBusy) : (r i).Sound x.disk (x.stage i)
  target : MakesOn (Above d₀.workingDir p (destination d₀.workingDir p))
      (d₀.node? (destination d₀.workingDir p)) (x.disk.node? (destination d₀.workingDir p)) ∨
    ∃ i, Holds (.text (r i).text) (x.disk.node? (destination d₀.workingDir p))
  steady (h : d₀.Steady p) : x.disk.Steady p
  read (h : d₀.Steady p) : x.disk.readText p = d₀.readText p ∨ ∃ i, x.disk.readText p = .ok (r i).text

theorem Scene.Sound.start (hd : d₀.WellFormed) : (Scene.start d₀ : Scene ι).Sound r p d₀ where
  workingDir := rfl
  wellFormed := hd
  exclusive := fun _ _ h _ => nomatch h
  writers := fun _ h => nomatch h
  target := .inl (.inl rfl)
  steady := id
  read := fun _ => .inl rfl

theorem Scene.Sound.text {x : Scene ι} (hx : x.Sound r p d₀) {text : String} (h : x.disk.readText p = .ok text) :
    Holds (.text text) (d₀.node? (destination d₀.workingDir p)) ∨ ∃ i, text = (r i).text := by
  have hholds := holds_of_readText h
  rw [hx.workingDir] at hholds
  rcases hx.target with hmakes | ⟨i, f, hf, hcontent⟩
  · exact .inl (hholds.of_makesOn hmakes)
  · obtain ⟨g, hg, hcontent'⟩ := hholds
    rw [hf] at hg
    cases hg
    rw [hcontent] at hcontent'
    cases hcontent'
    exact .inr ⟨i, rfl⟩

variable {x y : Scene ι}

theorem Scene.Sound.turn (hx : x.Sound r p d₀) (hr : ∀ i, (r i).IsApart) (hp : ∀ i, (r i).target = p)
    (h : Turn r x y) (hy : y.IsExclusive) : y.Sound r p d₀ := by
  obtain ⟨i, moves, h, hothers⟩ := h
  obtain rfl := hp i
  have hsound := h.sound_of_isBusy (hx.writers i)
  have hafter := h.sound hsound hx.wellFormed (hr i)
  have heffect := h.effect hsound hx.wellFormed (hr i)
  have hwd := h.workingDir
  constructor
  case workingDir => exact hwd.trans hx.workingDir
  case wellFormed => exact (h.grows hx.wellFormed).1
  case exclusive => exact hy
  case writers =>
    intro j hj
    by_cases hji : j = i
    · rw [hji]
      exact hafter
    · -- A writer at the temporary file keeps the one that takes this step away from it, before and after.
      have hbusy : (x.stage j).IsBusy := .of_follow (hothers j hji ▸ hj)
      have hbefore : ¬(x.stage i).IsBusy := fun hi => hji (hx.exclusive j i hbusy hi)
      have hnow : ¬(y.stage i).IsBusy := fun hi => hji (hy j i hj hi)
      obtain ⟨rfl, hmakes⟩ := h.makes hbefore hnow
      rw [hothers j hji, Stage.follow_some]
      exact (hx.writers j hbusy).of_makes hbusy hwd (Opened.of_advances h hx.wellFormed) hmakes
  case target =>
    by_cases hdone : y.stage i = .done true (.ok ())
    · rw [hdone] at hafter
      obtain ⟨-, hholds, -⟩ := hafter
      rw [targetAt, hwd, hx.workingDir] at hholds
      exact .inr ⟨i, hholds⟩
    · have htarget := heffect.node?_target (hr i) hdone
      rw [targetAt, hx.workingDir] at htarget
      rcases hx.target with hold | ⟨j, hholds⟩
      · exact .inl (MakesOn.isFrame.trans hold htarget)
      · have hmakes : Makes _ _ := htarget.imp_right And.right
        exact .inr ⟨j, hmakes.retains hholds⟩
  case steady => exact fun hsteady => heffect.steady hwd (hr i) (hx.steady hsteady)
  case read =>
    intro hsteady
    by_cases hdone : y.stage i = .done true (.ok ())
    · rw [hdone] at hafter
      exact .inr ⟨i, hafter.1⟩
    · rw [heffect.readText_target hx.wellFormed.tree hwd (hr i) hdone (hx.steady hsteady)]
      exact hx.read hsteady

theorem TakesTurns.sound (h : TakesTurns r (.start d₀) x) (hd : d₀.WellFormed) (hr : ∀ i, (r i).IsApart)
    (hp : ∀ i, (r i).target = p) : x.Sound r p d₀ := by
  induction h with
  | refl => exact .start hd
  | tail _ hturn ih => exact ih.turn hr hp hturn.1 hturn.2

/-- A writer that goes on by itself, while no other one is at the temporary file, keeps away from them. -/
theorem Leads.takesTurns [DecidableEq ι] {i : ι} (hi : ∀ j, j ≠ i → ¬(x.stage j).IsBusy)
    (h : (r i).Leads (x.stage i, x.disk) (s, d)) :
    TakesTurns r x ⟨d, Function.update x.stage i s⟩ := by
  suffices ∀ y, (r i).Leads (x.stage i, x.disk) y → TakesTurns r x ⟨y.2, Function.update x.stage i y.1⟩ from
    this _ h
  intro y hy
  induction hy with
  | refl => rw [Function.update_eq_self]
  | @tail y z _ hstep ih =>
    obtain ⟨moves, hstep⟩ := hstep
    have hself (s : Stage) : Function.update x.stage i s i = s := Function.update_self ..
    have hother {j : ι} (hj : j ≠ i) (s : Stage) : Function.update x.stage i s j = x.stage j :=
      Function.update_of_ne hj ..
    refine ih.tail ⟨⟨i, moves, ?_, fun j hj => ?_⟩, fun j k hj hk => ?_⟩
    · dsimp only
      rw [hself, hself]
      exact hstep
    · dsimp only
      rw [hother hj, hother hj, Stage.follow_of_not_isBusy (hi j hj)]
    · have heq {j : ι} (hj : (Function.update x.stage i z.1 j).IsBusy) : j = i := by
        by_contra hne
        rw [hother hne] at hj
        exact hi j hne hj
      rw [heq hj, heq hk]

end Disk.Replacement

namespace Manifest

open Replacement

variable {ι : Type} {d₀ : Disk} {m : ι → Manifest} {path : Path} {x : Scene ι}

theorem load_congr {d d' : Disk} (h : d'.readText path = d.readText path) : load path d' = load path d := by
  rw [load, h, ← load]

/-- Any number of writers that keep away from each other: the manifest that is found is the one that was there
before or one of those being written. A text that is found was that of the file before or is that of one of these,
whatever was missing on the way of the path. -/
theorem load_of_exclusive (hd : d₀.WellFormed)
    (h : TakesTurns (fun i => (m i).replacement path) (.start d₀) x) :
    (d₀.Steady path → load path x.disk = load path d₀ ∨ ∃ i, load path x.disk = .ok (some (m i))) ∧
    ∀ text, x.disk.readText path = .ok text →
      Holds (.text text) (d₀.node? (destination d₀.workingDir path)) ∨ ∃ i, text = (m i).render := by
  have hsound : x.Sound (fun i => (m i).replacement path) path d₀ :=
    TakesTurns.sound h hd (fun i => (m i).isApart path) fun _ => rfl
  refine ⟨fun hsteady => ?_, fun text => hsound.text⟩
  rcases hsound.read hsteady with hread | ⟨i, hread⟩
  · exact .inl (load_congr hread)
  · exact .inr ⟨i, load_of_readText hread⟩

/-- Two writers replace a file one after the other. -/
theorem savedManifests_loaded :
    let path : Path := ⟨"m.json"⟩
    let m : Bool → Manifest := fun _ => Index.ofList []
    let d : Disk := .bare ["w"]
    d.WellFormed ∧ d.Steady path ∧ ∃ x, TakesTurns (fun i => (m i).replacement path) (.start d) x ∧
      (∀ i, ∃ made, x.stage i = .done made (.ok ())) ∧ load path x.disk ≠ load path d ∧
        ∃ i, load path x.disk = .ok (some (m i)) := by
  intro path m d
  have hd : d.WellFormed := by decide
  have hsteady : d.Steady path := .inl (by decide +kernel)
  obtain ⟨made, result, d', hrun, hleads⟩ := (m true).exists_leads_save path d
  obtain ⟨made', result', d'', hrun', hleads'⟩ := (m false).exists_leads_save path d'
  have hok : (((m true).save path).run d).1.toBool = true ∧
      (((m false).save path).run (((m true).save path).run d).2).1.toBool = true ∧
      load path (((m false).save path).run (((m true).save path).run d).2).2 ≠ load path d := by
    decide +kernel
  rw [hrun, hrun'] at hok
  obtain ⟨hfirst, hsecond, hne⟩ := hok
  cases result with
  | error e => cases hfirst
  | ok =>
    cases result' with
    | error e => cases hsecond
    | ok =>
      have hturns : TakesTurns (fun i => (m i).replacement path) (.start d) _ :=
        hleads.takesTurns (i := true) fun _ _ => nofun
      have hturns' := hturns.trans <| hleads'.takesTurns (i := false) fun j hj => by
        cases j with
        | false => exact absurd rfl hj
        | true => exact nofun
      refine ⟨hd, hsteady, _, hturns', fun i => ?_, hne, ?_⟩
      · cases i with
        | false => exact ⟨made', rfl⟩
        | true => exact ⟨made, rfl⟩
      · exact ((load_of_exclusive hd hturns').1 hsteady).resolve_left hne

/-- Another writer empties the temporary file of the first one, which is renamed then. -/
theorem interleaved_saves_lose_text :
    let path : Path := ⟨"m.json"⟩
    let m : Bool → Manifest := fun _ => Index.ofList []
    let d : Disk := (Disk.bare ["w"]).put ["w", "m.json"] (.file { content := .text (m true).render })
    d.WellFormed ∧ Manifest.load path d = .ok (some (Index.ofList [])) ∧
      ∃ x, Relation.ReflTransGen (Replacement.Turn fun i => (m i).replacement path) (.start d) x ∧
        x.disk.readText path = .ok "" ∧ Manifest.load path x.disk = .error (.malformed path) := by
  intro path m d
  let r : Replacement := Manifest.replacement (Index.ofList []) path
  let t : Location := ["w", "m.json.tmp"]
  let empty : Node := .file { content := .text "" }
  have ht : destination ["w"] r.temporary = t := by decide +kernel
  have hp : destination ["w"] r.target = ["w", "m.json"] := by decide +kernel
  let scene (d : Disk) (first second : Stage) : Scene Bool := ⟨d, fun i => if i = true then first else second⟩
  let d₁ := d.put t empty
  let d₂ := d₁.writeAt (some t) 0 r.bytes
  let d₃ := d₂.put t empty
  let d₄ := (d₃.remove t).put ["w", "m.json"] empty
  have hcreate : r.Advances .preparing d some (.filling (some t) 0) d₁ :=
    ht ▸ .create (by decide +kernel)
  have hfill : r.Advances (.filling (some t) 0) d₁ some (.filling (some t) r.bytes.length) d₂ := .fill_all d₁ _
  have hempty : r.Advances .preparing d₂ some (.filling (some t) 0) d₃ :=
    ht ▸ .create (by decide +kernel)
  have hrename : r.Advances .renaming d₃ (.renamed t ["w", "m.json"]) (.done true (.ok ())) d₄ := by
    have hwd : d₃.workingDir = ["w"] := by decide +kernel
    have hstep : r.Advances .renaming d₃ _ (.done true (.ok ())) d₄ := .rename (by decide +kernel)
    rwa [hwd, ht, hp] at hstep
  have hfirst {d d' : Disk} {moves : Displacement} {s s' other : Stage} (h : r.Advances s d moves s' d') :
      Turn (fun _ => r) (scene d s other) (scene d' s' (other.follow moves)) := by
    refine ⟨true, moves, h, fun j hj => ?_⟩
    cases j with
    | false => rfl
    | true => exact absurd rfl hj
  have hsecond : Turn (fun _ => r) (scene d₂ .renaming .preparing) (scene d₃ .renaming (.filling (some t) 0)) := by
    refine ⟨false, some, hempty, fun j hj => ?_⟩
    cases j with
    | false => exact absurd rfl hj
    | true => rfl
  refine ⟨by decide, by decide +kernel, scene d₄ (.done true (.ok ())) (.filling (some ["w", "m.json"]) 0), ?_,
    by decide +kernel, by decide +kernel⟩
  have hrun : Relation.ReflTransGen (Turn fun _ => r) (.start d) (scene d₂ .renaming .preparing) := by
    have hstart : Scene.start d = scene d .preparing .preparing := by
      simp only [Scene.start, scene, ite_self]
    rw [hstart]
    exact .tail (.tail (.single (hfirst hcreate)) (hfirst hfill)) (hfirst (.sync _ _))
  exact .tail (.tail hrun hsecond) (hfirst hrename)

end Manifest
end JobBundler
