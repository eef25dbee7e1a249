import JobBundler.Proofs.Disk.Frame
import JobBundler.Proofs.Path.Extension
import Mathlib.Data.List.DropRight

/-!
# The directories above a path

A path above another one is written with the first steps of that one (`Disk.steps_of_parent?`), and so
leads to a location on its way (`Disk.destination_mem_way`). When directories are made for a path, nothing
changes but on this way (`Disk.keeps_makeDirs_on`).
-/

namespace JobBundler

namespace Path

/-- A path is put together again from its parts. -/
theorem ofParts_parts (p : Path) : ofParts p.parts.lead p.parts.segments = p := by
  obtain ⟨text⟩ := p
  rw [← String.ofList_toList (s := text)]
  unfold parts
  split
  · rename_i cs hcs
    rw [String.toList_ofList] at hcs
    simp [ofParts, intercalate_segments, Component.text, hcs, String.ofList_cons]
  · rename_i cs hcs
    rw [String.toList_ofList] at hcs
    obtain ⟨s, ss, hs⟩ := List.exists_cons_of_ne_nil (segments_ne_nil cs)
    rw [ofParts, hs, List.intercalate_cons_cons, ← hs, intercalate_segments, hcs]
    simp [Component.text, String.ofList_cons]
  · rename_i hcs
    rw [String.toList_ofList] at hcs
    rw [hcs]
    rfl
  · simp [ofParts, intercalate_segments]

/-- What a path can be cut into. -/
structure Parts.IsCut (x : Parts) : Prop where
  slash_notMem : ∀ s ∈ x.segments, '/' ∉ s
  current : x.lead = some .current → x.segments.head? = some []
  lead : x.lead = none ∨ x.lead = some .root ∨ x.lead = some .current

theorem isCut_parts (p : Path) : p.parts.IsCut := by
  have hsegments (cs : List Char) : ∀ s ∈ segments cs, '/' ∉ s := fun _ => notMem_of_mem_segments
  unfold parts
  split
  · exact ⟨hsegments _, by rintro ⟨⟩, .inr (.inl rfl)⟩
  · refine ⟨?_, fun _ => rfl, .inr (.inr rfl)⟩
    intro s hs
    rcases List.mem_cons.1 hs with rfl | hs
    · exact List.not_mem_nil
    · exact hsegments _ s hs
  · exact ⟨by simp, fun _ => rfl, .inr (.inr rfl)⟩
  · exact ⟨hsegments _, by rintro ⟨⟩, .inl rfl⟩

theorem intercalate_prefix (as bs : List (List Char)) :
    List.intercalate ['/'] as <+: List.intercalate ['/'] (as ++ bs) := by
  induction as with
  | nil => exact List.nil_prefix
  | cons a as ih =>
    cases as with
    | nil =>
      cases bs with
      | nil => exact List.prefix_rfl
      | cons b bs =>
        rw [List.singleton_append, List.intercalate_cons_cons]
        simp
    | cons a' as =>
      rw [List.cons_append, List.cons_append, List.intercalate_cons_cons, List.intercalate_cons_cons,
        ← List.cons_append]
      exact (List.prefix_append_right_inj _).2 ih

end Path

namespace Disk

open JobBundler.Path (ofParts trimSegments isSkipped)

variable {d d' : Disk} {p q : Path} {wd l : Location}

/-! ## Steps above a path -/

theorem textSteps_of_notMem {s : List Char} (h : '/' ∉ s) :
    textSteps s = if s.isEmpty then [] else [String.ofList s] := by
  rw [textSteps, Path.segments_of_notMem h]
  cases s <;> rfl

theorem textSteps_intercalate {ss : List (List Char)} (h : ∀ s ∈ ss, '/' ∉ s) :
    textSteps (List.intercalate ['/'] ss) = ss.flatMap textSteps := by
  induction ss with
  | nil => rfl
  | cons s ss ih =>
    have ih := ih fun t ht => h t (List.mem_cons_of_mem s ht)
    cases ss with
    | nil => simp
    | cons t ts =>
      rw [List.intercalate_cons_cons, List.append_assoc, List.singleton_append, textSteps_append_slash, ih,
        ← List.flatMap_cons]

/-- The steps of what a path starts with. -/
def leadSteps (lead : Option Path.Component) : List String :=
  if lead = some .current then ["."] else []

theorem steps_ofParts {x : Path.Parts} (hx : x.IsCut) {ss rest : List (List Char)}
    (hss : ss ++ rest = x.segments) :
    steps (ofParts x.lead ss) = leadSteps x.lead ++ ss.flatMap textSteps := by
  have hslash : ∀ s ∈ ss, '/' ∉ s := by
    intro s hs
    apply hx.slash_notMem
    rw [← hss]
    exact List.mem_append_left rest hs
  have hsteps := textSteps_intercalate hslash
  rw [steps_eq, ofParts, String.toList_append, String.toList_ofList]
  rcases hx.lead with hlead | hlead | hlead
  · rw [hlead]
    exact hsteps
  · rw [hlead]
    exact (textSteps_append_slash [] _).trans hsteps
  · have hfirst := hx.current hlead
    rw [hlead]
    rw [← hss] at hfirst
    rcases ss with _ | ⟨s, _ | ⟨t, ts⟩⟩
    · rfl
    · obtain rfl : s = [] := by simpa using hfirst
      rfl
    · obtain rfl : s = [] := by simpa using hfirst
      rw [← hsteps, List.intercalate_cons_cons, List.nil_append, List.singleton_append,
        ← List.nil_append ('/' :: _), textSteps_append_slash]
      exact textSteps_append_slash ['.'] _

theorem steps_eq_flatMap (p : Path) :
    steps p = leadSteps p.parts.lead ++ p.parts.segments.flatMap textSteps := by
  have hsteps := steps_ofParts p.isCut_parts (List.append_nil p.parts.segments)
  rwa [Path.ofParts_parts] at hsteps

/-- Segments are those of the path above, some that are skipped, the last one, and some again. -/
theorem exists_of_trimSegments {ss init : List (List Char)} {last : List Char}
    (h : (trimSegments ss).reverse = last :: init) : isSkipped last = false ∧
      ∃ middle rest, trimSegments init.reverse ++ (middle ++ last :: rest) = ss := by
  have htrimmed : trimSegments ss = init.reverse ++ [last] := by
    rw [← List.reverse_reverse (trimSegments ss), h, List.reverse_cons]
  constructor
  · have hne : List.rdropWhile isSkipped ss ≠ [] := by
      show trimSegments ss ≠ []
      simp [htrimmed]
    have hnot := List.rdropWhile_last_not isSkipped ss hne
    have hlast : (List.rdropWhile isSkipped ss).getLast hne = last := by
      show (trimSegments ss).getLast hne = last
      simp [htrimmed]
    rwa [hlast, Bool.not_eq_true] at hnot
  · obtain ⟨middle, hmiddle⟩ : trimSegments init.reverse <+: init.reverse :=
      List.rdropWhile_prefix isSkipped _
    obtain ⟨rest, hrest⟩ : trimSegments ss <+: ss := List.rdropWhile_prefix isSkipped _
    refine ⟨middle, rest, ?_⟩
    rw [← hrest, htrimmed, ← List.append_assoc, hmiddle]
    simp

/-- A path is longer than the one above it, and starts as that does. -/
theorem steps_of_parent? (h : p.parent? = some q) :
    (∃ more, more ≠ [] ∧ steps p = steps q ++ more) ∧ q.text.toList <+: p.text.toList := by
  have hcut := p.isCut_parts
  have hp := steps_eq_flatMap p
  have htext : p.text.toList =
      ((p.parts.lead.map (·.text)).getD "").toList ++ List.intercalate ['/'] p.parts.segments := by
    conv => lhs; rw [← p.ofParts_parts]
    rw [ofParts, String.toList_append, String.toList_ofList]
  unfold Path.parent? at h
  split at h
  · rename_i last init htrim
    cases h
    obtain ⟨hlast, middle, rest, hall⟩ := exists_of_trimSegments htrim
    constructor
    · refine ⟨(middle ++ last :: rest).flatMap textSteps, ?_, ?_⟩
      · have hslash : '/' ∉ last := hcut.slash_notMem last (by simp [← hall])
        have hempty : last.isEmpty = false := by
          rw [isSkipped, Bool.or_eq_false_iff] at hlast
          exact hlast.1
        simp [textSteps_of_notMem hslash, hempty]
      · rw [hp, steps_ofParts hcut hall, ← hall, List.flatMap_append, List.append_assoc]
    · rw [htext, ofParts, String.toList_append, String.toList_ofList, ← hall]
      exact (List.prefix_append_right_inj _).2 (Path.intercalate_prefix _ _)
  · rename_i hlead _
    cases h
    refine ⟨⟨steps p, ?_, rfl⟩, List.nil_prefix⟩
    rw [hp, hlead]
    simp [leadSteps]
  · cases h

theorem isAbsolute_of_prefix (h : q.text.toList <+: p.text.toList) (hq : q.text ≠ "") :
    q.isAbsolute = p.isAbsolute := by
  obtain ⟨rest, hrest⟩ := h
  exact (Path.isAbsolute_of_append (by simpa using hq) hrest.symm).symm

/-! ## Ways -/

theorem foldl_steps_start (wd : Location) (p : Path) :
    (steps p).foldl step (start wd p) = destination wd p :=
  foldl_steps_eq wd p

theorem mem_way_iff :
    l ∈ way wd p ↔ ∃ pre post, steps p = pre ++ post ∧ pre.foldl step (start wd p) = l := by
  rw [way, List.mem_map]
  constructor
  · rintro ⟨n, -, rfl⟩
    exact ⟨_, _, (List.take_append_drop n (steps p)).symm, rfl⟩
  · rintro ⟨pre, post, hsteps, rfl⟩
    refine ⟨pre.length, ?_, by rw [hsteps, List.take_left]⟩
    rw [List.mem_range, hsteps, List.length_append]
    omega

theorem destination_mem_way (wd : Location) (p : Path) : destination wd p ∈ way wd p :=
  mem_way_iff.2 ⟨steps p, [], (List.append_nil _).symm, foldl_steps_start wd p⟩

/-- A path that starts as another one does leads along the same way. -/
theorem way_subset {more : List String} (hstart : start wd q = start wd p)
    (h : steps p = steps q ++ more) : way wd q ⊆ way wd p := by
  intro l hl
  obtain ⟨pre, post, hsteps, rfl⟩ := mem_way_iff.1 hl
  exact mem_way_iff.2 ⟨pre, post ++ more, by rw [h, hsteps, List.append_assoc], by rw [hstart]⟩

theorem way_parent?_subset (hq : p.parent? = some q) (hne : q.text ≠ "") : way wd q ⊆ way wd p := by
  obtain ⟨⟨more, -, hsteps⟩, htext⟩ := steps_of_parent? hq
  have hstart : start wd q = start wd p := by
    rw [start, isAbsolute_of_prefix htext hne, ← start]
  exact way_subset hstart hsteps

theorem steps_div {n : String} (h : (Path.Component.normal n).IsStep) (p : Path) :
    steps (p / n) = steps p ++ [n] := by
  rw [Path.div_eq_join, steps_join p (Path.not_isAbsolute_of_isStep h), steps_of_isStep h]

/-- One name more leads one location on. -/
theorem mem_way_div {n : String} (h : (Path.Component.normal n).IsStep) :
    l ∈ way wd (p / n) ↔ l ∈ way wd p ∨ l = destination wd (p / n) := by
  constructor
  · intro hl
    obtain ⟨pre, post, hsteps, rfl⟩ := mem_way_iff.1 hl
    rcases List.eq_nil_or_concat' post with rfl | ⟨post, last, rfl⟩
    · rw [List.append_nil] at hsteps
      rw [← hsteps, foldl_steps_start]
      exact .inr rfl
    · rw [steps_div h, ← List.append_assoc] at hsteps
      rw [start_div h]
      exact .inl (mem_way_iff.2 ⟨pre, post, (List.append_inj' hsteps rfl).1, rfl⟩)
  · rintro (hl | rfl)
    · exact way_subset (start_div h wd).symm (steps_div h p) hl
    · exact destination_mem_way wd _

/-- The path above a joined one leads along the way of what the name was joined to. -/
theorem way_parent?_div {n : String} (h : (Path.Component.normal n).IsStep)
    (hq : (p / n).parent? = some q) (hne : q.text ≠ "") : way wd q ⊆ way wd p := by
  obtain ⟨⟨more, hmore, hsteps⟩, htext⟩ := steps_of_parent? hq
  obtain ⟨more, last, rfl⟩ := (List.eq_nil_or_concat' more).resolve_left hmore
  rw [steps_div h, ← List.append_assoc] at hsteps
  have hstart : start wd q = start wd p := by
    rw [start, isAbsolute_of_prefix htext hne, ← start, start_div h]
  exact way_subset hstart (List.append_inj' hsteps rfl).1

/-- What is below a name is not below another one in the same place. -/
theorem not_prefix_sibling {m : Location} {a b : String} (hab : a ≠ b) (ha : m ++ [a] <+: l) :
    ¬m ++ [b] <+: l := by
  intro hb
  obtain ⟨as, rfl⟩ := ha
  rw [List.append_assoc, List.prefix_append_right_inj] at hb
  exact hab (List.cons_prefix_cons.1 hb).1.symm

/-! ## Directories that are made -/

theorem mem_ancestors_upTo {k : Nat} (h : q ∈ ancestors.upTo k p) :
    (∃ more, steps p = steps q ++ more) ∧ q.text.toList <+: p.text.toList := by
  induction k generalizing p with
  | zero =>
    obtain rfl := List.mem_singleton.1 h
    exact ⟨⟨[], (List.append_nil _).symm⟩, List.prefix_rfl⟩
  | succ k ih =>
    rw [ancestors.upTo] at h
    rcases List.mem_cons.1 h with rfl | h
    · exact ⟨⟨[], (List.append_nil _).symm⟩, List.prefix_rfl⟩
    · cases hparent : p.parent? with
      | none => simp [hparent] at h
      | some r =>
        rw [hparent] at h
        obtain ⟨⟨more, hmore⟩, htext⟩ := ih h
        obtain ⟨⟨more', -, hsteps⟩, htext'⟩ := steps_of_parent? hparent
        exact ⟨⟨more ++ more', by rw [hsteps, hmore, List.append_assoc]⟩, htext.trans htext'⟩

/-- A directory that is made for a path is on its way. -/
theorem mem_way_of_mem_ancestors (h : q ∈ ancestors p) (hq : q.text ≠ "") :
    p.text ≠ "" ∧ destination wd q ∈ way wd p := by
  obtain ⟨⟨more, hsteps⟩, htext⟩ := mem_ancestors_upTo h
  have hstart : start wd q = start wd p := by
    rw [start, isAbsolute_of_prefix htext hq, ← start]
  refine ⟨?_, way_subset hstart hsteps (destination_mem_way wd q)⟩
  intro hp
  rw [hp] at htext
  exact hq (by simpa using htext)

/-- What happens to nodes when directories are made, if any can be made there. -/
def MakesOn (P : Prop) (n n' : Option Node) : Prop :=
  n' = n ∨ P ∧ n = none ∧ n' = some .directory

variable {P : Prop}

theorem MakesOn.isFrame : IsFrame (MakesOn P) where
  refl _ := .inl rfl
  trans h h' := by
    rcases h with rfl | ⟨hp, rfl, rfl⟩
    · exact h'
    · rcases h' with rfl | ⟨-, h, -⟩
      · exact .inr ⟨hp, rfl, rfl⟩
      · cases h

theorem MakesOn.eq {n n' : Option Node} (h : MakesOn P n n') (hp : ¬P) : n' = n :=
  h.resolve_right fun hmade => hp hmade.1

/-- A directory that is made above a path is made on its way, and nothing else changes. -/
theorem at_makeDir_on (hq : q ∈ ancestors p) (hne : q.text ≠ "") (h : p.text ≠ "" → l ∈ way wd p → P)
    (hmade : makeDir q d = .ok d') : At wd l (MakesOn P) d d' := by
  rintro rfl
  obtain ⟨hp, hway⟩ : p.text ≠ "" ∧ destination d.workingDir q ∈ way d.workingDir p :=
    mem_way_of_mem_ancestors hq hne
  obtain ⟨-, -, hnone, rfl⟩ := makeDir_eq_ok hmade
  refine at_put MakesOn.isFrame (ne_nil_of_ne_directory (d := d) (by simp [hnone])) ?_ rfl
  rintro rfl
  exact .inr ⟨h hp hway, hnone, rfl⟩

/-- Where directories are made, nothing else changes, and they are made on the way of the path only. -/
theorem keeps_makeDirs_on (h : p.text ≠ "" → l ∈ way wd p → P) :
    Keeps (At wd l (MakesOn P)) (makeDirs p) :=
  keeps_makeDirsUpTo_of (At.isFrame MakesOn.isFrame) fun _ hq hne _ _ => at_makeDir_on hq hne h

end Disk
end JobBundler
