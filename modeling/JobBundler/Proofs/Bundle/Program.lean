import JobBundler.Bundle.Program
import JobBundler.Proofs.Build.Course

/-!
# Bundlers that are programs

A process with a directory of its own runs there, and the working directory is as before when it has ended
(`Process.run_in`). A bundler with a command line succeeds exactly if its program can be started and exits
with 0 (`Bundler.program_eq_ok_iff`). So a build with such a bundler has run the program once, with the
arguments for its entries, and the program has succeeded (`build_runs_program`).
-/

namespace JobBundler

variable {c : Config} {d d' : Disk} {name : String} {leading : List String} {environment : Environment}

/-! ## Processes -/

namespace Process

variable {command : Command} {p : Path} {here : Disk.Location}

/-- Nothing is started with a NUL in its texts. -/
theorem run_of_hasNul (h : ∃ text ∈ command.texts, hasNul text) :
    (run command).run d = (.error .nulInCommand, d) := by
  unfold run
  rw [if_pos (List.any_eq_true.2 h)]
  rfl

theorem run_of_no_directory {e : FileError} (hnul : ∀ text ∈ command.texts, hasNul text = false)
    (hp : command.directory = some p) (h : locateDir p d = .error e) :
    (run command).run d = (.error e, d) := by
  have hany : command.texts.any hasNul = false := List.any_eq_false.2 fun text ht => by simp [hnul text ht]
  unfold run
  rw [hany, hp]
  change ((Disk.Action.view (locateDir p) >>= _).run d) = _
  rw [run_bind, Disk.Action.run_view, h]

/-- A process runs in its directory, which nobody else does. -/
theorem run_in (hnul : ∀ text ∈ command.texts, hasNul text = false) (hp : command.directory = some p)
    (h : locateDir p d = .ok here) :
    (run command).run d = (((runHere command).run { d with workingDir := here }).1,
      { ((runHere command).run { d with workingDir := here }).2 with workingDir := d.workingDir }) := by
  have hany : command.texts.any hasNul = false := List.any_eq_false.2 fun text ht => by simp [hnul text ht]
  unfold run
  rw [hany, hp]
  change ((Disk.Action.view (locateDir p) >>= _).run d) = _
  rw [run_bind, Disk.Action.run_view, h]
  rfl

theorem workingDir_run (hp : command.directory = some p) (d : Disk) :
    ((run command).run d).2.workingDir = d.workingDir := by
  by_cases hnul : ∃ text ∈ command.texts, hasNul text
  · rw [run_of_hasNul hnul]
  · have hnul : ∀ text ∈ command.texts, hasNul text = false := by simpa using hnul
    cases h : locateDir p d with
    | error e => rw [run_of_no_directory hnul hp h]
    | ok here => rw [run_in hnul hp h]

/-- What has been started has no NUL in its texts. -/
theorem hasNul_of_run {done : Finished} (h : (run command).run d = (.ok done, d')) :
    ∀ text ∈ command.texts, hasNul text = false := by
  by_contra hnul
  rw [run_of_hasNul (by simpa using hnul)] at h
  cases h

end Process

/-! ## Bundlers -/

namespace Bundler

variable {r : BundleRequest}

theorem isSuccess_iff {s : ExitStatus} : s.isSuccess ↔ s = .exited 0 :=
  beq_iff_eq

theorem run_program_of_error {e : FileError}
    (h : (Process.run (command name leading environment r)).run d = (.error e, d')) :
    (program (name :: leading) environment r).run d =
      (.error (.spawn (" ".intercalate (name :: leading)) e), d') := by
  unfold program
  dsimp only
  rw [run_bind, Disk.Action.run_orFail, h]
  rfl

theorem run_program_of_finished {done : Finished}
    (h : (Process.run (command name leading environment r)).run d = (.ok done, d')) :
    (program (name :: leading) environment r).run d =
      (if done.status = .exited 0 then .ok () else
        .error (.failed (" ".intercalate (name :: leading)) done.status.describe
          (String.ofList (Text.trim (Text.decode done.stderr.toList)))), d') := by
  unfold program
  dsimp only
  rw [run_bind, Disk.Action.run_orFail, h]
  by_cases hstatus : done.status = .exited 0
  · have hsuccess : done.status.isSuccess := isSuccess_iff.2 hstatus
    simp only [Except.mapError, hsuccess, if_pos hstatus, if_true]
    rfl
  · have hsuccess : done.status.isSuccess = false := Bool.eq_false_iff.2 (mt isSuccess_iff.1 hstatus)
    simp only [Except.mapError, hsuccess, if_neg hstatus]
    rfl

/-- A bundler succeeds exactly if its program can be started and exits with 0. -/
theorem program_eq_ok_iff : (program (name :: leading) environment r).run d = (.ok (), d') ↔
    ∃ done, (Process.run (command name leading environment r)).run d = (.ok done, d') ∧
      done.status = .exited 0 := by
  rcases h : (Process.run (command name leading environment r)).run d with ⟨e | done, d₁⟩
  · rw [run_program_of_error h]
    constructor
    · rintro ⟨⟩
    · rintro ⟨_, ⟨⟩, _⟩
  · rw [run_program_of_finished h]
    by_cases hstatus : done.status = .exited 0
    · rw [if_pos hstatus]
      constructor
      · rintro ⟨⟩
        exact ⟨done, rfl, hstatus⟩
      · rintro ⟨_, ⟨⟩, _⟩
        rfl
    · rw [if_neg hstatus]
      constructor
      · rintro ⟨⟩
      · rintro ⟨_, ⟨⟩, hsuccess⟩
        exact absurd hsuccess hstatus

/-- Where the program goes is its own affair. -/
theorem workingDir_program (commandLine : List String) (environment : Environment) (r : BundleRequest)
    (d : Disk) : ((program commandLine environment r).run d).2.workingDir = d.workingDir := by
  cases commandLine with
  | nil => rfl
  | cons name leading =>
    have hdirectory : (command name leading environment r).directory = some r.workingDir := rfl
    have hwd := Process.workingDir_run hdirectory d
    rcases h : (Process.run (command name leading environment r)).run d with ⟨e | done, d₁⟩
    · rw [run_program_of_error h]
      rwa [h] at hwd
    · rw [run_program_of_finished h]
      rwa [h] at hwd

end Bundler

/-- A build with a program for its bundler has run this once, with the arguments for its entries, and the
program has exited with 0. -/
theorem build_runs_program {w w' : Workspace} {rep : BuildReport}
    (h : (build c (.program (name :: leading) environment)).run w = (.ok rep, w')) :
    ∃ js es forceInlined d d' done, Build.plan c w.disk = .ok (js, es) ∧
      w'.requests = w.requests ++ [Build.request c es forceInlined] ∧
      (Process.run (Bundler.command name leading environment (Build.request c es forceInlined))).run d =
        (.ok done, d') ∧ done.status = .exited 0 ∧
      (∀ text ∈ (Bundler.command name leading environment (Build.request c es forceInlined)).texts,
        hasNul text = false) ∧
      d.workingDir = w.disk.workingDir ∧ d'.workingDir = w.disk.workingDir := by
  obtain ⟨js, es, forceInlined, d₁, d₂, d₃, d₄, hpasses, -, rfl⟩ := run_build_eq_ok_iff.1 h
  obtain ⟨done, hrun, hstatus⟩ := Bundler.program_eq_ok_iff.1 hpasses.bundle
  have hwd := Bundler.workingDir_program (name :: leading) environment (Build.request c es forceInlined) d₂
  rw [hpasses.bundle, hpasses.workingDir₂] at hwd
  exact ⟨js, es, forceInlined, d₂, d₃, done, hpasses.plan, rfl, hrun, hstatus, Process.hasNul_of_run hrun,
    hpasses.workingDir₂, hwd⟩

end JobBundler
