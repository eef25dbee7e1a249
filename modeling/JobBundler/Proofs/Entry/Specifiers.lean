import JobBundler.Proofs.Entry.Plan
import JobBundler.Proofs.Path.Specifier

/-!
# The specifiers in entry modules

An entry module of a job imports what the source of the job does, and that of a group imports the
sources of the group's jobs. The specifiers in both mean the modules that they are meant to if and
only if the output directory and the module start at the same place, both at the root or both where
the build runs, and the output directory leads up no farther than the module
(`specifiers_resolve_iff`).
-/

namespace JobBundler

/-- The specifiers that are written for the configured output directory, in an entry of a job and in
one of a group, lead to their modules from every working directory, exactly under the condition on
the right. -/
theorem specifiers_resolve_iff (c : Config) :
    (∀ (sourceDir : Path) (spec : String), Specifier.isRelative spec →
      ((∀ cwd : Path, cwd.isAbsolute →
          ((cwd.join (c.scratchDir / "jobs")).join
              ⟨Specifier.rebase spec sourceDir (c.scratchDir / "jobs")⟩).normalize =
            ((cwd.join sourceDir).join ⟨spec⟩).normalize) ↔
        c.outPath.isAbsolute = sourceDir.isAbsolute ∧
          c.outPath.ups ≤ (sourceDir.join ⟨spec⟩).ups)) ∧
      ∀ file : Path,
        (∀ cwd : Path, cwd.isAbsolute →
          ((cwd.join (c.scratchDir / "groups")).join
              ⟨Specifier.relative (c.scratchDir / "groups") (modulePath file)⟩).normalize =
            (cwd.join (modulePath file)).normalize) ↔
        c.outPath.isAbsolute = (modulePath file).isAbsolute ∧
          c.outPath.ups ≤ (modulePath file).ups := by
  obtain ⟨hja, hju⟩ := c.isAbsolute_ups_scratchDir "jobs" (by decide)
  obtain ⟨hga, hgu⟩ := c.isAbsolute_ups_scratchDir "groups" (by decide)
  constructor
  · intro sourceDir spec h
    rw [Specifier.rebase_resolves_iff h, hja, hju]
  · intro file
    rw [Specifier.relative_resolves_iff, hga, hgu]

theorem default_specifiers_resolve :
    let jobs := ({} : Config).scratchDir / "jobs"
    Specifier.isRelative "../util" ∧
      ∀ cwd : Path, cwd.isAbsolute →
        ((cwd.join jobs).join ⟨Specifier.rebase "../util" ⟨"src"⟩ jobs⟩).normalize =
          ((cwd.join ⟨"src"⟩).join ⟨"../util"⟩).normalize :=
  ⟨by decide, ((specifiers_resolve_iff {}).1 ⟨"src"⟩ "../util" (by decide)).2 (by decide)⟩

/-- From `/w/p`, the module `./util` of `src` is not what an entry in `../out` imports: the way up
from there does not lead back into `p`. A module that is named from the root is looked for where the
build runs. -/
theorem specifiers_miss_modules :
    let below : Config := { outDir := ⟨"../out"⟩ }
    let jobs := below.scratchDir / "jobs"
    let groups := ({} : Config).scratchDir / "groups"
    (Specifier.rebase "./util" ⟨"src"⟩ jobs = "../../../../../src/util" ∧
      (((Path.mk "/w/p").join jobs).join ⟨"../../../../../src/util"⟩).normalize = ⟨"/src/util"⟩ ∧
      (((Path.mk "/w/p").join ⟨"src"⟩).join ⟨"./util"⟩).normalize = ⟨"/w/p/src/util"⟩) ∧
    Specifier.relative groups (modulePath ⟨"/src/a.ts"⟩) = "../../../..///src/a" ∧
      (((Path.mk "/w/p").join groups).join ⟨"../../../..///src/a"⟩).normalize = ⟨"/w/p/src/a"⟩ ∧
      ((Path.mk "/w/p").join (modulePath ⟨"/src/a.ts"⟩)).normalize = ⟨"/src/a"⟩ := by
  decide +kernel

end JobBundler
