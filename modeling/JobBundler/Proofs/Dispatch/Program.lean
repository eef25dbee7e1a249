import JobBundler.Dispatch.Program
import JobBundler.Proofs.Build.Stages
import JobBundler.Proofs.Disk.Frame
import JobBundler.Proofs.Index

/-!
# Hosts that are programs

The file for the outcome is empty when the program is started, and gone when the outcome is reported, so an
outcome is what the program has written (`Host.program_eq_ok`). Whatever the environment is that the program
inherits, it finds there what it is to load (`Host.get?_environment_iff`).
-/

namespace JobBundler.Host

open Disk

variable {name loader : String} {environment : Environment} {r : LoadRequest} {d : Disk} {w w' : Workspace}
  {outcome : Outcome}

/-- The settings for a request take the place of variables of the same names. -/
theorem get?_environment_iff {k v : String} :
    (command name loader environment r).environment.get? k = some v ↔
      (k, v) ∈ settings r ∨ k ∉ (settings r).map (·.1) ∧ environment.get? k = some v := by
  have hnodup : ((settings r).map (·.1)).Nodup := by
    change ["EJ_ARTIFACT", "EJ_JOB_ID", "EJ_MANIFEST_MODE", "EJ_ENTRY_METHOD", "EJ_RESULT_FILE"].Nodup
    decide
  exact Index.get?_foldl_insert_iff hnodup environment

theorem outcomeIn_eq_ok_iff {file : Path} {status : ExitStatus} :
    outcomeIn file status d = .ok outcome ↔
      ∃ text, d.readText file = .ok text ∧ ¬Text.isBlankText text ∧ Outcome.ofText? text = some outcome := by
  unfold outcomeIn
  cases d.readText file with
  | error e =>
    constructor
    · rintro ⟨⟩
    · rintro ⟨_, ⟨⟩, _⟩
  | ok text =>
    simp only [Except.mapError, bind, Except.bind, Except.ok.injEq, exists_eq_left']
    cases hblank : Text.isBlankText text with
    | true => exact ⟨nofun, fun h => absurd rfl h.1⟩
    | false =>
      cases Outcome.ofText? text with
      | none => exact ⟨nofun, nofun⟩
      | some other =>
        constructor
        · rintro ⟨⟩
          exact ⟨Bool.false_ne_true, rfl⟩
        · rintro ⟨-, ⟨⟩⟩
          rfl

/-- An outcome is read when the program has ended, and what it has printed is printed. -/
theorem execute_eq_ok (h : (execute name loader environment r).run w = (.ok outcome, w')) :
    ∃ done d, (Process.run (command name loader environment r)).run w.disk = (.ok done, d) ∧
      outcomeIn resultFile done.status d = .ok outcome ∧
      w' = { w with
        disk := d
        stdout := w.stdout ++ Text.ofBytes done.stdout
        stderr := w.stderr ++ Text.ofBytes done.stderr } := by
  unfold execute at h
  obtain ⟨done, w₁, hstarted, hreported⟩ := run_bind_eq_ok_iff.1 h
  obtain ⟨d, hrun, rfl⟩ := Workspace.Action.run_onDisk_eq_ok_iff.1 hstarted
  obtain ⟨hread, rfl⟩ := Workspace.Action.run_view_eq_ok_iff.1 hreported
  exact ⟨done, d, hrun, hread, rfl⟩

/-- The outcome that a host reports is what the program has written to a file that was empty before, and that
is gone now. -/
theorem program_eq_ok (h : (program name loader environment r).run w = (.ok outcome, w')) :
    ∃ d done d' text, Disk.write resultFile (.text "") w.disk = .ok d ∧
      (Process.run (command name loader environment r)).run d = (.ok done, d') ∧
      (d'.readText resultFile = .ok text ∧ Outcome.ofText? text = some outcome) ∧
      Disk.removeFile resultFile d' = .ok w'.disk ∧
      w'.requests = w.requests ∧
      w'.stdout = w.stdout ++ Text.ofBytes done.stdout ∧ w'.stderr = w.stderr ++ Text.ofBytes done.stderr := by
  unfold program at h
  obtain ⟨_, w₁, hemptied, hrest₁⟩ := run_bind_eq_ok_iff.1 h
  obtain ⟨result, w₂, hexecuted, hrest₂⟩ := run_bind_eq_ok_iff.1 hrest₁
  obtain ⟨_, w₃, hremoved, hrest₃⟩ := run_bind_eq_ok_iff.1 hrest₂
  cases hrest₃
  obtain ⟨d, hwrite, rfl⟩ := Workspace.Action.run_onDisk_eq_ok_iff.1 hemptied
  obtain ⟨d₃, hremove, rfl⟩ := Workspace.Action.run_onDisk_eq_ok_iff.1 hremoved
  obtain ⟨hresult, hw₂⟩ := Prod.ext_iff.1 hexecuted
  obtain ⟨done, d', hrun, hread, rfl⟩ := execute_eq_ok (Prod.ext (Except.ok.inj hresult) hw₂)
  obtain ⟨text, htext, -, houtcome⟩ := outcomeIn_eq_ok_iff.1 hread
  exact ⟨d, done, d', text, Action.run_change_eq_ok_iff.1 hwrite, hrun, ⟨htext, houtcome⟩,
    Action.run_change_eq_ok_iff.1 hremove, rfl, rfl, rfl⟩

end JobBundler.Host
