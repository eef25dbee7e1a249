import JobBundler.Bundle.Request
import Mathlib.Data.List.Basic
import Mathlib.Data.List.TakeWhile

/-!
# What a request leaves outside

A request has to bundle the package dependencies into every artifact, so it drops the externals that are
dependencies. An external may also stand for many modules, by a `*`, and what it stands for is not looked at:
the dependencies are bundled exactly if no such external stands for one without being one
(`BundleRequest.inlines_iff`).
-/

namespace JobBundler

/-! ## The modules that an external stands for -/

namespace External

/-- Whether an external stands for the module of that name. A `*` in it stands for any text. -/
def covers (external name : String) : Bool :=
  let before := external.toList.takeWhile (· ≠ '*')
  match external.toList.dropWhile (· ≠ '*') with
  | [] => external == name
  | _ :: after => before.isPrefixOf name.toList && after.isSuffixOf (name.toList.drop before.length)

variable {external name : String}

theorem covers_of_star {before after : List Char} (h : external.toList = before ++ '*' :: after)
    (hbefore : '*' ∉ before) :
    covers external name ↔ ∃ inside, name.toList = before ++ inside ++ after := by
  have hplain : ∀ ch ∈ before, decide (ch ≠ '*') = true := fun ch hch =>
    decide_eq_true fun heq => hbefore (heq ▸ hch)
  have htake : external.toList.takeWhile (· ≠ '*') = before := by
    rw [h, List.takeWhile_append_of_pos hplain]
    simp
  have hdrop : external.toList.dropWhile (· ≠ '*') = '*' :: after := by
    rw [h, List.dropWhile_append_of_pos hplain]
    simp
  unfold covers
  simp only [htake, hdrop, Bool.and_eq_true, List.isPrefixOf_iff_prefix, List.isSuffixOf_iff_suffix]
  constructor
  · rintro ⟨⟨rest, hrest⟩, ⟨inside, hinside⟩⟩
    rw [← hrest, List.drop_left] at hinside
    exact ⟨inside, by rw [← hrest, ← hinside, List.append_assoc]⟩
  · rintro ⟨inside, hname⟩
    rw [hname, List.append_assoc, List.drop_left]
    exact ⟨List.prefix_append _ _, List.suffix_append _ _⟩

theorem covers_of_no_star (h : '*' ∉ external.toList) : covers external name ↔ external = name := by
  have hdrop : external.toList.dropWhile (· ≠ '*') = [] :=
    List.dropWhile_eq_nil_iff.2 fun ch hch => decide_eq_true fun heq => h (heq ▸ hch)
  simp only [covers, hdrop, beq_iff_eq]

/-- The text of a dependency stands for it, whatever it is made of. -/
theorem covers_self (name : String) : covers name name := by
  by_cases h : '*' ∈ name.toList
  · obtain ⟨before, after, hname, hbefore⟩ := List.eq_append_cons_of_mem h
    exact (covers_of_star hname hbefore).2 ⟨['*'], by simpa using hname⟩
  · exact (covers_of_no_star h).2 rfl

end External

/-! ## The arguments for externals -/

namespace BundleRequest

open External (covers)

variable {r : BundleRequest}

/-- The arguments for the entry modules. -/
def entryArguments (r : BundleRequest) : List String :=
  r.entries.toList.map fun (key, path) => s!"{key}={path.text}"

/-- The dependencies are bundled: no `--external:` argument stands for one. -/
def Inlines (r : BundleRequest) : Prop :=
  ∀ name ∈ r.forceInlined, ∀ external, "--external:" ++ external ∈ r.arguments → ¬covers external name

theorem mem_arguments_external_iff {external : String} :
    "--external:" ++ external ∈ r.arguments ↔
      "--external:" ++ external ∈ r.entryArguments ∨ external ∈ r.effectiveExternals := by
  have hmap : "--external:" ++ external ∈ r.effectiveExternals.map ("--external:" ++ ·) ↔
      external ∈ r.effectiveExternals :=
    List.mem_map_of_injective fun _ _ h => (String.append_right_inj _).1 h
  -- The third letter tells it from every argument that is neither for an entry nor for an external.
  have hother (others : List String) (hothers : ∀ x ∈ others, x.toList[2]? ≠ some 'e') :
      "--external:" ++ external ∉ others := by
    intro hmem
    apply hothers _ hmem
    simp [String.toList_append]
  have htext (s : String) : toString s = s := rfl
  have hfixed := hother
    ["--bundle", "--format=esm", s!"--platform={r.platform}", s!"--target={r.target}",
      s!"--outdir={r.outDir.text}", "--log-level=warning"] (by simp [String.toList_append, htext])
  have hextension := hother
    (if r.outExtension = "js" then [] else [s!"--out-extension:.js=.{r.outExtension}"])
    (by split <;> simp [String.toList_append, htext])
  have hbanner := hother (if r.platform = "node" then [s!"--banner:js={requireBanner}"] else [])
    (by split <;> simp [String.toList_append, htext])
  rw [arguments, List.mem_append, List.mem_append, List.mem_append, List.mem_append,
    or_iff_left hbanner, or_iff_left hextension, or_iff_left hfixed]
  exact or_congr_right hmap

theorem mem_effectiveExternals {external : String} :
    external ∈ r.effectiveExternals ↔ external ∈ r.externals ∧ external ∉ r.forceInlined := by
  simp [effectiveExternals]

/-- What stands for no dependency is no dependency. -/
theorem filter_covers_sublist (r : BundleRequest) :
    (r.externals.filter fun external => !r.forceInlined.any (covers external)).Sublist
      r.effectiveExternals := by
  refine List.monotone_filter_right r.externals fun external h => ?_
  have hnone : ∀ name ∈ r.forceInlined, covers external name = false := by simpa using h
  have hnot : external ∉ r.forceInlined := fun hmem => by
    simpa [External.covers_self] using hnone external hmem
  simpa using hnot

/-- The dependencies are bundled exactly if no external with a `*` stands for one without being one, and no
entry is taken for an external that does. The externals that stand for no dependency are passed on in any
case, in their order. -/
theorem inlines_iff (r : BundleRequest) :
    (r.Inlines ↔
      (∀ external ∈ r.externals, '*' ∈ external.toList → external ∉ r.forceInlined →
        ∀ name ∈ r.forceInlined, ¬covers external name) ∧
      ∀ external, "--external:" ++ external ∈ r.entryArguments →
        ∀ name ∈ r.forceInlined, ¬covers external name) ∧
    ((r.externals.filter fun external => !r.forceInlined.any (covers external)).map
      ("--external:" ++ ·)).Sublist r.arguments := by
  refine ⟨⟨fun h => ⟨?_, ?_⟩, ?_⟩, ?_⟩
  · intro external hexternal _ hnot name hname
    have hargument := mem_effectiveExternals.2 ⟨hexternal, hnot⟩
    exact h name hname external (mem_arguments_external_iff.2 (.inr hargument))
  · intro external hentry name hname
    exact h name hname external (mem_arguments_external_iff.2 (.inl hentry))
  · rintro ⟨hstar, hentry⟩ name hname external hargument
    rcases mem_arguments_external_iff.1 hargument with hargument | hargument
    · exact hentry external hargument name hname
    · obtain ⟨hexternal, hnot⟩ := mem_effectiveExternals.1 hargument
      by_cases h : '*' ∈ external.toList
      · exact hstar external hexternal h hnot name hname
      · rw [External.covers_of_no_star h]
        rintro rfl
        exact hnot hname
  · exact ((filter_covers_sublist r).map _).trans (List.sublist_append_right _ _)

/-- An external for all packages of a scope leaves a dependency from that scope outside. -/
theorem scopeExternal_leaves_dependency :
    let r : BundleRequest :=
      { entries := .ofList [("jobs/A", ⟨"dist/.ej/entries/jobs/A.entry.ts"⟩)]
        outDir := ⟨"dist"⟩
        platform := "node"
        target := "esnext"
        externals := ["node:*", "@acme/*", "fs"]
        forceInlined := ["@acme/util"]
        outExtension := "mjs"
        workingDir := ⟨"."⟩ }
    "@acme/util" ∈ r.forceInlined ∧ "--external:@acme/*" ∈ r.arguments ∧ covers "@acme/*" "@acme/util" ∧
      ¬r.Inlines := by
  intro r
  have hdependency : "@acme/util" ∈ r.forceInlined := by decide
  have hargument : "--external:" ++ "@acme/*" ∈ r.arguments := by decide +kernel
  have hcovers : covers "@acme/*" "@acme/util" := by decide +kernel
  exact ⟨hdependency, hargument, hcovers, fun h => h _ hdependency _ hargument hcovers⟩

end BundleRequest
end JobBundler
