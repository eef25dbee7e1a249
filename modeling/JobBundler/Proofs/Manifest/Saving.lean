import JobBundler.Manifest.Store
import JobBundler.Proofs.Disk.Writer

/-!
# Saving a manifest

While a manifest is saved, its file is as it was or holds the new text, wherever the writer fails
(`Manifest.save_atomic`). This rests on the temporary file being beside it (`Manifest.isApart`). What does change
on the way is that missing directories are made, and the path may lead through the place of the file itself
(`save_makes_target`).
-/

namespace JobBundler

open Disk
open JobBundler.Path (Component)

variable {d d' d₀ : Disk} {p : Path} {m : Manifest}

/-! ## The temporary file -/

namespace Manifest

/-- The temporary file of a manifest has another name than the manifest. -/
theorem isApart (m : Manifest) (path : Path) : (m.replacement path).IsApart := by
  intro hending
  change ending (path.withExtension "json.tmp") = .name at hending
  show Nonempty (Beside path (path.withExtension "json.tmp"))
  cases hfile : path.fileName? with
  | none =>
    have hsame : path.withExtension "json.tmp" = path := by
      rw [Path.withExtension, Path.extension?, hfile]
      simp only [Option.bind_none]
      rw [Path.setExtension, hfile]
    rw [hsame] at hending
    obtain ⟨name, hname⟩ := exists_fileName? hending
    rw [hfile] at hname
    cases hname
  | some name =>
    obtain ⟨pre, trail, htext, hpre, htrail, hname⟩ := Path.exists_text_of_fileName? hfile
    have hslash : '/' ∉ name.toList := hname.slash_notMem
    rcases Path.withExtension_of_text "json.tmp" (by decide) htext hpre htrail hname with hq | hq
    · have hother : (Component.normal ((Path.splitExtension name).1 ++ "." ++ "json.tmp")).IsStep := by
        apply Component.isStep_normal
        · rw [String.toList_append, String.toList_append, List.append_assoc]
          intro hmem
          rcases List.mem_append.1 hmem with hmem | hmem
          · exact hslash ((Path.stem_prefix name).subset hmem)
          · revert hmem
            decide
        · simp only [String.toList_append, List.length_append]
          have hlength : "json.tmp".toList.length = 8 := rfl
          omega
      rw [hq]
      exact exists_beside htext String.toList_ofList hpre htrail hname hother
        (Path.ne_stem_append (by decide) name)
    · have hdots := ending_of_dots (p := ⟨String.ofList (pre ++ ['.', '.'])⟩) String.toList_ofList hpre
      rw [hq, hdots] at hending
      cases hending

/-- A manifest that is saved is a run of a writer. -/
theorem exists_leads_save (m : Manifest) (path : Path) (d : Disk) : ∃ made result d',
    (m.save path).run d = (result.mapError (.unwritable path), d') ∧
      (m.replacement path).Leads (.preparing, d) (.done made result, d') := by
  have hperform (d₁ : Disk) (hleads : (m.replacement path).Leads (.preparing, d) (.preparing, d₁)) :
      ∃ made result d', (m.replacement path).perform.run d₁ = (result, d') ∧
        (m.replacement path).Leads (.preparing, d) (.done made result, d') := by
    obtain ⟨made, result, d', hrun, hdone⟩ := (m.replacement path).exists_leads_perform d₁
    exact ⟨made, result, d', hrun, hleads.trans hdone⟩
  have horFail (x : Action FileError Unit) (h : ∃ made result d', x.run d = (result, d') ∧
      (m.replacement path).Leads (.preparing, d) (.done made result, d')) :
      ∃ made result d', (x.orFail (ManifestError.unwritable path)).run d =
          (result.mapError (.unwritable path), d') ∧
        (m.replacement path).Leads (.preparing, d) (.done made result, d') := by
    obtain ⟨made, result, d', hrun, hleads⟩ := h
    exact ⟨made, result, d', by rw [Action.run_orFail, hrun], hleads⟩
  refine horFail _ ?_
  split
  · rename_i parent hparent
    have hmake := Replacement.leads_makeDirs (r := m.replacement path) hparent d
    rw [run_bind]
    rcases hdirs : (makeDirs parent).run d with ⟨e | _, d₁⟩
    · rw [hdirs] at hmake
      exact ⟨false, .error e, d₁, rfl, hmake.step (.notPrepared d₁ e)⟩
    · rw [hdirs] at hmake
      exact hperform d₁ hmake
  · exact hperform d .refl

end Manifest

/-! ## What a reader may find -/

namespace Disk.Replacement

/-- What holds at each stage of a replacement that started on a disk. Where a path above the target led to
nothing, there may be a directory now. -/
structure IsAtomic (r : Replacement) (d₀ : Disk) (s : Stage) (d : Disk) : Prop where
  /-- The target reads as before or as the new text. -/
  read : d₀.Steady r.target → d.readText r.target = d₀.readText r.target ∨ d.readText r.target = .ok r.text
  /-- The only texts that are ever read are the new one and the one that was in the place of the target. -/
  texts {text : String} : d.readText r.target = .ok text →
    Holds (.text text) (d₀.node? (r.targetAt d₀)) ∨ text = r.text
  target : MakesOn (Above d₀.workingDir r.target (r.targetAt d₀)) (d₀.node? (r.targetAt d₀))
      (d.node? (r.targetAt d₀)) ∨
    Holds (.text r.text) (d.node? (r.targetAt d₀))
  succeeded {made : Bool} : s = .done made (.ok ()) → d.readText r.target = .ok r.text ∧
    Holds (.text r.text) (d.node? (r.targetAt d₀)) ∧
    d.nodeAt r.temporary = .error .notFound ∧ d.node? (r.temporaryAt d₀) = none
  /-- After a failure the target is as before, and there is no temporary file if one was made. -/
  failed {made : Bool} {e : FileError} : s = .done made (.error e) →
    (d₀.Steady r.target → d.readText r.target = d₀.readText r.target) ∧
    MakesOn (Above d₀.workingDir r.target (r.targetAt d₀)) (d₀.node? (r.targetAt d₀))
      (d.node? (r.targetAt d₀)) ∧
    (made = true → d.isFile r.temporary = false ∧ ∀ f, d.node? (r.temporaryAt d₀) ≠ some (.file f))
  others (l : Location) : l ≠ r.targetAt d₀ → l ≠ r.temporaryAt d₀ →
    MakesOn (Above d₀.workingDir r.target l) (d₀.node? l) (d.node? l)

theorem Follows.isAtomic {r : Replacement} {s : Stage} (h : r.Follows d₀ s d) : r.IsAtomic d₀ s d := by
  have hwd := h.workingDir
  have hdone {made : Bool} (hs : s = .done made (.ok ())) : d.readText r.target = .ok r.text ∧
      Holds (.text r.text) (d.node? (r.targetAt d₀)) ∧
      d.nodeAt r.temporary = .error .notFound ∧ d.node? (r.temporaryAt d₀) = none := by
    have hsound := h.sound
    rw [hs, Sound, targetAt, temporaryAt, hwd] at hsound
    exact hsound
  constructor
  case read =>
    intro hp
    by_cases hs : s = .done true (.ok ())
    · exact .inr (hdone hs).1
    · exact .inl (h.read hs hp)
  case texts =>
    intro text hread
    by_cases hs : s = .done true (.ok ())
    · rw [(hdone hs).1] at hread
      exact .inr (Except.ok.inj hread).symm
    · left
      have hholds := holds_of_readText hread
      rw [hwd] at hholds
      exact hholds.of_makesOn (h.target hs)
  case target =>
    by_cases hs : s = .done true (.ok ())
    · exact .inr (hdone hs).2.1
    · exact .inl (h.target hs)
  case succeeded => exact hdone
  case failed =>
    rintro made e rfl
    refine ⟨h.read (by simp), h.target (by simp), fun hmade => ?_⟩
    have hsound := h.sound hmade
    rwa [temporaryAt, hwd] at hsound
  case others => exact fun l htarget ht => h.others l ht htarget

end Disk.Replacement

/-- Wherever a writer of a manifest is, and whatever fails, the file is as it was or holds the new text, and no
other file is changed. -/
theorem Manifest.save_atomic (m : Manifest) (path : Path) (hd : d₀.WellFormed) :
    (∀ s d, (m.replacement path).Leads (.preparing, d₀) (s, d) → (m.replacement path).IsAtomic d₀ s d) ∧
    ∃ made result d', (m.save path).run d₀ = (result.mapError (.unwritable path), d') ∧
      (m.replacement path).Leads (.preparing, d₀) (.done made result, d') :=
  ⟨fun _ _ h => (h.follows hd (m.isApart path)).isAtomic, m.exists_leads_save path d₀⟩

/-- A job is in a group now, and the manifest in the place of which it had an artifact of its own is gone. -/
theorem jobMoved_saved :
    let path : Path := ⟨"dist/manifest.json"⟩
    let a : JobId := ⟨"A", by decide⟩
    let old : Manifest := Index.ofList [(a, .single a "mjs")]
    let m : Manifest := Index.ofList [(a, .group ⟨"g", by decide⟩ "mjs")]
    let d : Disk := ((Disk.bare ["w"]).put ["w", "dist"] .directory).put ["w", "dist", "manifest.json"]
      (.file { content := .text old.render })
    d.WellFormed ∧ d.Steady path ∧ d.readText path = .ok old.render ∧ old.render ≠ m.render ∧
      ∃ made d', (m.save path).run d = (.ok (), d') ∧ d'.readText path = .ok m.render ∧
        (m.replacement path).IsAtomic d (.done made (.ok ())) d' := by
  intro path a old m d
  have hd : d.WellFormed := by decide
  have hok : ((m.save path).run d).1.toBool = true := by decide +kernel
  have hold : d.readText path = .ok old.render ∧ old.render ≠ m.render := by decide +kernel
  obtain ⟨hatomic, made, result, d', hrun, hleads⟩ := m.save_atomic path hd
  rw [hrun] at hok
  cases result with
  | error e => cases hok
  | ok =>
    have hdone := hatomic _ _ hleads
    exact ⟨hd, .inl (by decide +kernel), hold.1, hold.2, made, d', hrun, (hdone.succeeded rfl).1, hdone⟩

/-- A path that leads through the place of its own file, where a directory is made. -/
theorem save_makes_target :
    let path : Path := ⟨"m.json/../m.json"⟩
    let d : Disk := .bare ["w"]
    let r := (Manifest.save (Index.ofList []) path).run d
    d.WellFormed ∧ path.fileName? = some "m.json" ∧ r.1 = .error (.unwritable path .isDirectory) ∧
      d.node? ["w", "m.json"] = none ∧ d.readText path = .error .notFound ∧
      r.2.node? ["w", "m.json"] = some .directory ∧ r.2.readText path = .error .isDirectory := by
  decide +kernel

end JobBundler
