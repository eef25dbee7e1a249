import JobBundler.Build
import JobBundler.Proofs.Action

/-!
# The stages of a build

What a build does before it asks the bundler does not depend on the bundler (`Build.prepare`); after
that it only runs the bundler and writes the manifest (`Build.finish`). A build asks the bundler at
most once, and then for the entries that it has planned (`requests_build`).
-/

namespace JobBundler

/-! ## Runs on workspaces -/

namespace Workspace.Action

variable {ε ε' α : Type}

theorem run_get_bind (f : Workspace → Action ε α) (w : Workspace) :
    (get >>= f : Action ε α).run w = (f w).run w :=
  rfl

theorem run_onDisk (x : Disk.Action ε α) (f : ε → ε') (w : Workspace) :
    (onDisk x f).run w = ((x.run w.disk).1.mapError f, { w with disk := (x.run w.disk).2 }) := by
  unfold onDisk
  rw [run_get_bind]
  generalize x.run w.disk = y
  rcases y with ⟨_ | _, d⟩ <;> rfl

theorem run_view (x : Disk → Except ε α) (f : ε → ε') (w : Workspace) :
    (view x f).run w = ((x w.disk).mapError f, w) := by
  unfold view
  rw [run_get_bind]
  generalize x w.disk = y
  rcases y with _ | _ <;> rfl

theorem run_onDisk_eq_ok_iff {x : Disk.Action ε α} {f : ε → ε'} {w w' : Workspace} {a : α} :
    (onDisk x f).run w = (.ok a, w') ↔
      ∃ d, x.run w.disk = (.ok a, d) ∧ w' = { w with disk := d } := by
  rw [run_onDisk, Prod.mk.injEq, mapError_eq_ok_iff]
  rcases x.run w.disk with ⟨r, d⟩
  constructor
  · rintro ⟨rfl, rfl⟩; exact ⟨d, rfl, rfl⟩
  · rintro ⟨_, ⟨⟩, rfl⟩; exact ⟨rfl, rfl⟩

theorem run_view_eq_ok_iff {x : Disk → Except ε α} {f : ε → ε'} {w w' : Workspace} {a : α} :
    (view x f).run w = (.ok a, w') ↔ x w.disk = .ok a ∧ w' = w := by
  rw [run_view, Prod.mk.injEq, mapError_eq_ok_iff, eq_comm (a := w)]

theorem run_bundle (bundler : Bundler) (r : BundleRequest) (f : BundleError → ε) (w : Workspace) :
    (bundle bundler r f).run w =
      (((bundler r).run w.disk).1.mapError f,
        { w with disk := ((bundler r).run w.disk).2, requests := w.requests ++ [r] }) := by
  change (onDisk (bundler r) f).run { w with requests := w.requests ++ [r] } = _
  rw [run_onDisk]

theorem run_bundle_eq_ok_iff {bundler : Bundler} {r : BundleRequest} {f : BundleError → ε}
    {w w' : Workspace} : (bundle bundler r f).run w = (.ok (), w') ↔
      ∃ d, (bundler r).run w.disk = (.ok (), d) ∧
        w' = { w with disk := d, requests := w.requests ++ [r] } := by
  rw [run_bundle, Prod.mk.injEq, mapError_eq_ok_iff]
  rcases (bundler r).run w.disk with ⟨res, d⟩
  constructor
  · rintro ⟨rfl, rfl⟩; exact ⟨d, rfl, rfl⟩
  · rintro ⟨_, ⟨⟩, rfl⟩; exact ⟨rfl, rfl⟩

end Workspace.Action

/-! ## Before and after the bundler is asked -/

namespace Build

theorem plan_eq_ok {c : Config} {d : Disk} {js : List Job} {es : List EntryModule}
    (h : plan c d = .ok (js, es)) :
    ∃ found, discover c d = .ok found ∧ validate c.mode c.root found.candidates = .ok js ∧
      planEntries c found.files js = .ok es := by
  unfold plan at h
  obtain ⟨_, -, h⟩ := Except.bind_eq_ok_iff.1 h
  obtain ⟨found, hd, h⟩ := Except.bind_eq_ok_iff.1 h
  obtain ⟨js', hv, h⟩ := Except.bind_eq_ok_iff.1 h
  obtain ⟨es', hes, h⟩ := Except.bind_eq_ok_iff.1 h
  cases h
  exact ⟨found, mapError_eq_ok_iff.1 hd, mapError_eq_ok_iff.1 hv, mapError_eq_ok_iff.1 hes⟩

/-- All that a build does before it asks the bundler. -/
def prepare (c : Config) : Workspace.Action BuildError (List Job × BundleRequest) := do
  let (jobs, entries) ← .view (plan c) id
  .onDisk (writeEntries entries) id
  let forceInlined ← .view (dependencies c.root) id
  .onDisk (clean c.outPath) id
  return (jobs, request c entries forceInlined)

/-- What a build does with the jobs and the request that are prepared. -/
def finish (c : Config) (bundler : Bundler) (js : List Job) (r : BundleRequest) :
    Workspace.Action BuildError BuildReport := do
  .bundle bundler r .bundle
  .onDisk ((report c js).manifest.save c.manifestPath) .manifest
  return report c js

end Build

theorem build_eq (c : Config) (bundler : Bundler) :
    build c bundler = Build.prepare c >>= fun x => Build.finish c bundler x.1 x.2 := by
  simp only [build, Build.prepare, Build.finish, bind_assoc, pure_bind]
  rfl

/-- A preparation that succeeds has planned the entries of its request, has written them, and has
removed the old artifacts. -/
theorem Build.run_prepare_eq_ok {c : Config} {w w' : Workspace} {js : List Job} {r : BundleRequest}
    (h : (prepare c).run w = (.ok (js, r), w')) :
    ∃ es d₁ forceInlined d₂, plan c w.disk = .ok (js, es) ∧
      (writeEntries es).run w.disk = (.ok (), d₁) ∧ dependencies c.root d₁ = .ok forceInlined ∧
      (clean c.outPath).run d₁ = (.ok (), d₂) ∧ r = request c es forceInlined ∧
      w' = { w with disk := d₂ } := by
  obtain ⟨⟨js', es⟩, w₁, h₁, h⟩ := run_bind_eq_ok_iff.1 h
  obtain ⟨_, w₂, h₂, h⟩ := run_bind_eq_ok_iff.1 h
  obtain ⟨forceInlined, w₃, h₃, h⟩ := run_bind_eq_ok_iff.1 h
  obtain ⟨_, w₄, h₄, h⟩ := run_bind_eq_ok_iff.1 h
  obtain ⟨hp, rfl⟩ := Workspace.Action.run_view_eq_ok_iff.1 h₁
  obtain ⟨d₁, hw, rfl⟩ := Workspace.Action.run_onDisk_eq_ok_iff.1 h₂
  obtain ⟨hdeps, rfl⟩ := Workspace.Action.run_view_eq_ok_iff.1 h₃
  obtain ⟨d₂, hc, rfl⟩ := Workspace.Action.run_onDisk_eq_ok_iff.1 h₄
  cases h
  exact ⟨es, d₁, forceInlined, d₂, hp, hw, hdeps, hc, rfl, rfl⟩

/-! ## Requests -/

/-- No bundler has been asked in between. -/
def SameRequests (w w' : Workspace) : Prop :=
  w'.requests = w.requests

theorem SameRequests.isFrame : IsFrame SameRequests :=
  ⟨fun _ => rfl, fun h h' => h'.trans h⟩

theorem Workspace.Action.sameRequests_onDisk {ε ε' α : Type} (x : Disk.Action ε α) (f : ε → ε') :
    Keeps SameRequests (onDisk x f) := by
  intro w
  rw [run_onDisk]
  rfl

theorem Workspace.Action.sameRequests_view {ε ε' α : Type} (x : Disk → Except ε α) (f : ε → ε') :
    Keeps SameRequests (view x f) := by
  intro w
  rw [run_view]
  rfl

open Workspace.Action in
theorem Build.sameRequests_prepare (c : Config) : Keeps SameRequests (prepare c) := by
  have hR := SameRequests.isFrame
  refine .bind hR (sameRequests_view _ _) fun x => ?_
  refine .bind hR (sameRequests_onDisk _ _) fun _ => ?_
  refine .bind hR (sameRequests_view _ _) fun _ => ?_
  exact .bind hR (sameRequests_onDisk _ _) fun _ => .pure hR _

theorem Build.requests_finish (c : Config) (bundler : Bundler) (js : List Job) (r : BundleRequest)
    (w : Workspace) : ((finish c bundler js r).run w).2.requests = w.requests ++ [r] := by
  unfold finish
  rw [run_bind, Workspace.Action.run_bundle]
  rcases ((bundler r).run w.disk).1 with e | a
  · rfl
  · simp only [Except.mapError]
    rw [run_bind, Workspace.Action.run_onDisk]
    generalize ExceptT.run ((report c js).manifest.save c.manifestPath) _ = y
    rcases y with ⟨_ | _, d⟩ <;> rfl

/-- A build asks the bundler at most once, for the entries that it has planned. -/
theorem requests_build (c : Config) (bundler : Bundler) (w : Workspace) :
    ((build c bundler).run w).2.requests = w.requests ∨
      ∃ js es forceInlined, Build.plan c w.disk = .ok (js, es) ∧
        ((build c bundler).run w).2.requests =
          w.requests ++ [Build.request c es forceInlined] := by
  rw [build_eq, run_bind]
  have hk := Build.sameRequests_prepare c w
  rcases hp : (Build.prepare c).run w with ⟨e | ⟨js, r⟩, w'⟩
  · rw [hp] at hk
    exact .inl hk
  · obtain ⟨es, _, forceInlined, _, hplan, -, -, -, rfl, rfl⟩ := Build.run_prepare_eq_ok hp
    exact .inr ⟨js, es, forceInlined, hplan, Build.requests_finish ..⟩

end JobBundler
