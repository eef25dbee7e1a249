import JobBundler.Proofs.Entry.Plan
import JobBundler.Proofs.Build.Stages

/-!
# The paths of a bundle request

A bundler runs in the root of the project, while the paths of its request start with that root and
are meant from where the build runs. The two readings agree exactly if the output directory is
absolute or the root leads down as many names as it leads up (`requests_resolve_iff`): a root such
as `p` is followed twice.
-/

namespace JobBundler

/-- The paths among the arguments of a request, each with what stands before it. -/
def BundleRequest.pathArguments (r : BundleRequest) : List (String × Path) :=
  r.entries.toList ++ [("--outdir", r.outDir)]

theorem BundleRequest.mem_arguments {r : BundleRequest} {a : String × Path}
    (h : a ∈ r.pathArguments) : s!"{a.1}={a.2.text}" ∈ r.arguments := by
  unfold arguments
  rcases List.mem_append.1 h with h | h
  · refine List.mem_append_left _ (List.mem_append_left _ (List.mem_append_left _ ?_))
    exact List.mem_append_left _ (List.mem_map.2 ⟨a, h, rfl⟩)
  · rw [List.mem_singleton] at h
    subst h
    refine List.mem_append_left _ (List.mem_append_left _ (List.mem_append_left _ ?_))
    refine List.mem_append_right _ ?_
    have ht : toString "--outdir" ++ toString "=" = toString "--outdir=" := rfl
    rw [ht]
    simp

namespace Path

/-- A path that leads down as many names as it leads up leads to the same place twice. -/
theorem place_place_of_ups_eq {p : Path} (h : p.isAbsolute ∨ p.ups = p.names.length)
    (start : List String) : p.place (p.place start) = p.place start := by
  by_cases ha : p.isAbsolute
  · rw [place_eq, place_eq, if_pos ha, if_pos ha]
  · have hu := h.resolve_left ha
    rw [place_eq p (p.place start), place_eq, if_neg ha, if_neg ha, hu,
      ← List.length_reverse, List.drop_left]

/-- From far below the root, following `p` twice before `q` leads elsewhere than following it once,
unless `p` leads down as many names as it leads up. -/
theorem ups_eq_of_place_eq {p q : Path} (hp : ¬p.isAbsolute) (hq : ¬q.isAbsolute)
    {start : List String} (hs : start.length = 2 * p.ups + q.ups)
    (h : q.place (p.place (p.place start)) = q.place (p.place start)) :
    p.ups = p.names.length := by
  have hl := congrArg List.length h
  rw [length_place hq, length_place hq, length_place hp, length_place hp, hs] at hl
  omega

theorem normalize_join_join_eq_iff {cwd p q : Path} (h : cwd.isAbsolute) :
    ((cwd.join p).join q).normalize = (cwd.join q).normalize ↔
      q.place (p.place (cwd.place [])) = q.place (cwd.place []) := by
  rw [normalize_eq_iff (by simp [h]) (by simp [h]), place_join, place_join, place_join]

end Path

/-- The paths of a request lie below the output directory: what they add to it leads from wherever
that is. -/
theorem exists_place_of_mem_pathArguments {c : Config} {files : List SourceFile} {js : List Job}
    {es : List EntryModule} (h : planEntries c files js = .ok es) {forceInlined : List String}
    {a : String × Path} (ha : a ∈ (Build.request c es forceInlined).pathArguments) :
    ∃ f : List String → List String, ∀ start, a.2.place start = f (c.outPath.place start) := by
  rcases List.mem_append.1 ha with ha | ha
  · obtain ⟨e, he, rfl⟩ := List.mem_map.1 (Index.mem_of_mem_toList_ofList ha)
    obtain ⟨dir, hd, name, -, -, hp⟩ := exists_of_mem_planEntries h he
    refine ⟨fun s => Path.place (Path.place ("entries" :: ".ej" :: s) ⟨dir⟩)
      ⟨name ++ entrySuffix⟩, fun start => ?_⟩
    rw [hp, Path.div_eq_join, Path.div_eq_join, Path.place_join, Path.place_join,
      Config.place_scratchDir]
  · rw [List.mem_singleton] at ha
    subst ha
    exact ⟨id, fun _ => rfl⟩

/-- The paths that a build hands to the bundler mean the same in the bundler's directory as where
the build runs, whatever that is, if and only if the output directory is absolute or the root leads
down as many names as it leads up. -/
theorem requests_resolve_iff {c : Config} {bundler : Bundler} {w : Workspace} {r : BundleRequest}
    (h : ((build c bundler).run w).2.requests = w.requests ++ [r]) :
    (∀ a ∈ r.pathArguments, s!"{a.1}={a.2.text}" ∈ r.arguments) ∧
      ((∀ cwd : Path, cwd.isAbsolute → ∀ a ∈ r.pathArguments,
          ((cwd.join r.workingDir).join a.2).normalize = (cwd.join a.2).normalize) ↔
        c.outPath.isAbsolute ∨ c.root.ups = c.root.names.length) := by
  refine ⟨fun a ha => BundleRequest.mem_arguments ha, ?_⟩
  rcases requests_build c bundler w with hb | ⟨js, es, forceInlined, hplan, hb⟩
  · simp [hb] at h
  obtain rfl : r = Build.request c es forceInlined := by
    rw [hb] at h
    simpa using h.symm
  obtain ⟨found, -, -, hes⟩ := Build.plan_eq_ok hplan
  constructor
  · intro hall
    by_contra hn
    rw [not_or, Config.isAbsolute_outPath, Bool.or_eq_true, not_or] at hn
    have hdeep := Path.isAbsolute_deep (2 * c.root.ups + c.outDir.ups)
    have hout := hall _ hdeep ("--outdir", c.outPath) (List.mem_append_right _ (by simp; rfl))
    have hp := (Path.normalize_join_join_eq_iff hdeep).1 hout
    rw [Config.place_outPath, Config.place_outPath] at hp
    exact hn.2 (Path.ups_eq_of_place_eq hn.1.1 hn.1.2 (Path.length_place_deep _) hp)
  · intro hc cwd hcwd a ha
    obtain ⟨f, hf⟩ := exists_place_of_mem_pathArguments hes ha
    refine (Path.normalize_join_join_eq_iff hcwd).2 ?_
    rw [hf, hf]
    by_cases ho : c.outPath.isAbsolute
    · rw [Path.place_eq c.outPath, Path.place_eq c.outPath, if_pos ho, if_pos ho]
    · have hp := Path.place_place_of_ups_eq (.inr (hc.resolve_left ho)) (cwd.place [])
      rw [Config.place_outPath, Config.place_outPath]
      exact congrArg (fun s => f (c.outDir.place s)) hp

/-- A project in the directory `dir` with one job, and no bundler asked so far. -/
def oneJob (cwd dir : Disk.Location) : Workspace :=
  { disk := ((Disk.bare cwd).put dir .directory).put (dir ++ ["a.ts"])
      (.file { content := .text "@job export class A {}" }) }

/-- A root that leads up and down again. -/
def siblingRoot : Config :=
  { root := ⟨"../p"⟩, pattern := "a.ts", externals := [] }

/-- The request of a build with `siblingRoot` in `/p`. -/
def siblingRequest : BundleRequest :=
  { entries := .ofList [("jobs/A", ⟨"../p/dist/.ej/entries/jobs/A.entry.ts"⟩)]
    outDir := ⟨"../p/dist"⟩
    platform := "node"
    target := "esnext"
    externals := []
    forceInlined := []
    outExtension := "mjs"
    workingDir := ⟨"../p"⟩ }

theorem siblingRequest_resolves :
    ((build siblingRoot (.failing "")).run (oneJob ["p"] ["p"])).2.requests =
        (oneJob ["p"] ["p"]).requests ++ [siblingRequest] ∧
      ∀ cwd : Path, cwd.isAbsolute → ∀ a ∈ siblingRequest.pathArguments,
        ((cwd.join siblingRequest.workingDir).join a.2).normalize = (cwd.join a.2).normalize := by
  have h : ((build siblingRoot (.failing "")).run (oneJob ["p"] ["p"])).2.requests =
      (oneJob ["p"] ["p"]).requests ++ [siblingRequest] := by decide +kernel
  exact ⟨h, (requests_resolve_iff h).2.2 (.inr (by decide))⟩

/-- In `/w`, a bundler that runs in the root `p` takes the output directory `p/dist` for
`/w/p/p/dist`, while the build means `/w/p/dist`. -/
theorem requests_follow_root_twice :
    let c : Config := { root := ⟨"p"⟩, pattern := "a.ts" }
    c.validate = .ok () ∧
      ((build c .standIn).run (oneJob ["w"] ["w", "p"])).2.requests.map
        (fun r => (r.workingDir, r.outDir)) = [(⟨"p"⟩, ⟨"p/dist"⟩)] ∧
      (((Path.mk "/w").join ⟨"p"⟩).join ⟨"p/dist"⟩).normalize = ⟨"/w/p/p/dist"⟩ ∧
      ((Path.mk "/w").join ⟨"p/dist"⟩).normalize = ⟨"/w/p/dist"⟩ := by
  decide +kernel

end JobBundler
