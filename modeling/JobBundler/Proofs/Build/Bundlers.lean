import JobBundler.Proofs.Build.Frames
import JobBundler.Proofs.Disk.Keeping
import JobBundler.Proofs.Disk.WellFormed

/-!
# Bundlers that make the artifacts

An exact bundler makes the artifacts that it is asked for and the directories that they need
(`Bundler.IsExact`). The stand-in is one.
-/

namespace JobBundler

open Disk

variable {d : Disk} {l : Location}

/-! ## Exact bundlers -/

/-- A bundler that makes artifacts and the directories on the way to them, and nothing else. When it
succeeds, it has made all that it was asked for. -/
structure Bundler.IsExact (bundler : Bundler) : Prop where
  workingDir (r : BundleRequest) (d : Disk) : ((bundler r).run d).2.workingDir = d.workingDir
  wellFormed (r : BundleRequest) (d : Disk) : Preserves d ((bundler r).run d).2
  only (r : BundleRequest) (d : Disk) (l : Location)
    (h : ∀ key ∈ r.entries.keys, destination d.workingDir (r.artifact key) ≠ l) :
    MakesOn (∃ key ∈ r.entries.keys, l ∈ way d.workingDir (r.artifact key)) (d.node? l)
      (((bundler r).run d).2.node? l)
  all (r : BundleRequest) (d d' : Disk) (h : (bundler r).run d = (.ok (), d')) :
    ∀ key ∈ r.entries.keys, d'.isFile (r.artifact key)

theorem Bundler.isExact_standIn : standIn.IsExact := by
  have hkeeping (r : BundleRequest) : ∀ key ∈ r.entries.keys, Keeps Keeping
      ((writeWithDirs (r.artifact key) (.text s!"// bundled {key}\n")).orFail
        (BundleError.spawn standInName)) :=
    fun key _ => Action.keeps_orFail (keeping_writeWithDirs _ _) _
  constructor
  · exact fun r d => (Keeps.forM Keeping.isFrame (hkeeping r) d).1
  · intro r d
    have hgrows : Keeps Grows (standIn r) := by
      refine .forM Grows.isFrame fun key _ => Action.keeps_orFail ?_ _
      exact keeps_writeWithDirs_of Grows.isFrame (fun q _ => grows_makeDirs q) fun _ _ => grows_write
    exact (hgrows d).preserves
  · intro r d l hl
    let P := ∃ key ∈ r.entries.keys, l ∈ way d.workingDir (r.artifact key)
    have hR : IsFrame (At d.workingDir l (MakesOn P)) := At.isFrame MakesOn.isFrame
    have hkeeps : Keeps (At d.workingDir l (MakesOn P)) (standIn r) := by
      refine .forM hR fun key hkey => Action.keeps_orFail ?_ _
      apply keeps_writeWithDirs_of hR
      · intro q hq
        apply keeps_makeDirs_on
        intro hne hway
        exact ⟨key, hkey, way_parent?_subset hq hne hway⟩
      · exact fun _ _ hw => at_write_of_ne MakesOn.isFrame (hl key hkey) hw
    exact (hkeeps d rfl).2
  · intro r d d' h key hkey
    obtain ⟨d₁, d₂, -, hrun, hafter⟩ := exists_run_of_mem Keeping.isFrame (hkeeping r) h hkey
    exact hafter.isFile (isFile_of_writeWithDirs (Action.run_orFail_eq_ok_iff.1 hrun))

end JobBundler
