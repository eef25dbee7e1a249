import JobBundler.Proofs.Path.Place

/-!
# Normal forms

A path and its normal form lead to the same place, wherever they start, and two paths that do so have
the same normal form (`normalize_eq_iff_place`). So a path may be normalised before another one is put
after it, and normalising twice is normalising once. What is left of the dots is said by the components
of the normal form (`normalize_canonical`).
-/

namespace JobBundler.Path

@[simp] theorem place_normalize (p : Path) (start : List String) :
    p.normalize.place start = p.place start := by
  rw [place_eq_foldl p, place, components_normalize]

@[simp] theorem isAbsolute_normalize (p : Path) : p.normalize.isAbsolute = p.isAbsolute := by
  rw [Bool.eq_iff_iff, isAbsolute_iff_components, components_normalize]
  rcases normalComponents_components p with ⟨hp, -, hn⟩ | ⟨hp, hn⟩
  · rw [hn]
    exact iff_of_true rfl hp
  · refine iff_of_false (fun hroot => ?_) hp
    exact (isStep_of_mem_normalComponents hp (List.mem_of_head? hroot)).ne_root rfl

/-! ## Places tell normal forms apart -/

variable {p q : Path}

/-- Only an absolute path leads to the same place from everywhere. -/
theorem isAbsolute_iff_place : p.isAbsolute ↔ ∀ start, p.place start = p.place [] := by
  constructor
  · intro h start
    rw [(normalComponents_of_isAbsolute h).2, (normalComponents_of_isAbsolute h).2]
  · intro h
    by_contra hp
    -- From farther below the root than the path leads up, it leads to a place with more names.
    have hlength := congrArg List.length (h (List.replicate (p.ups + 1) "d"))
    rw [length_place hp, length_place hp, List.length_replicate, List.length_nil] at hlength
    omega

theorem isAbsolute_iff_of_place (h : ∀ start, p.place start = q.place start) :
    p.isAbsolute ↔ q.isAbsolute := by
  rw [isAbsolute_iff_place, isAbsolute_iff_place]
  simp only [h]

/-- At the root the `..` at the start of a path lead nowhere, so only its names are left. -/
theorem names_eq_of_place (h : ∀ start, p.place start = q.place start) : p.names = q.names := by
  have hroot := h []
  rw [place_eq, place_eq] at hroot
  simpa using hroot

theorem ups_eq_of_place (hp : ¬p.isAbsolute) (h : ∀ start, p.place start = q.place start) :
    p.ups = q.ups := by
  have hq : ¬q.isAbsolute := (isAbsolute_iff_of_place h).not.1 hp
  have hlength := congrArg List.length (h (List.replicate (p.ups + q.ups) "d"))
  rw [length_place hp, length_place hq, names_eq_of_place h, List.length_replicate] at hlength
  omega

/-- Paths have the same normal form exactly if they lead to the same place from everywhere. -/
theorem normalize_eq_iff_place :
    p.normalize = q.normalize ↔ ∀ start, p.place start = q.place start := by
  constructor
  · intro h start
    rw [← place_normalize, h, place_normalize]
  · intro h
    rw [normalize_eq_iff_normalComponents]
    by_cases hp : p.isAbsolute
    · have hq : q.isAbsolute := (isAbsolute_iff_of_place h).1 hp
      rw [(normalComponents_of_isAbsolute hp).1, (normalComponents_of_isAbsolute hq).1,
        names_eq_of_place h]
    · have hq : ¬q.isAbsolute := (isAbsolute_iff_of_place h).not.1 hp
      rw [(normalComponents_of_not_isAbsolute hp).1, (normalComponents_of_not_isAbsolute hq).1,
        names_eq_of_place h, ups_eq_of_place hp h]

theorem normalize_join_normalize (p q : Path) :
    (p.normalize.join q).normalize = (p.join q).normalize := by
  refine normalize_eq_iff_place.2 fun start => ?_
  rw [place_join, place_join, place_normalize]

/-! ## The components that are left -/

theorem current_notMem_normalize (p : Path) : .current ∉ p.normalize.components := by
  rw [components_normalize]
  rcases normalComponents_components p with ⟨-, -, hn⟩ | ⟨-, hn⟩
  · simp [hn]
  · simp [hn]

theorem parent_notMem_normalize (h : p.isAbsolute) : .parent ∉ p.normalize.components := by
  rw [components_normalize, (normalComponents_of_isAbsolute h).1]
  simp

/-- The `..` that are left are those that no name stands before. -/
theorem exists_leading_parents (h : ¬p.isAbsolute) :
    ∃ k rest, p.normalize.components = List.replicate k .parent ++ rest ∧ .parent ∉ rest := by
  refine ⟨p.ups, p.names.map .normal, ?_, by simp⟩
  rw [components_normalize, (normalComponents_of_not_isAbsolute h).1]

/-- The normal form stays as it is, and is absolute where the path is. It has no `.`, and no `..` but at
the start of a relative path. Whether a path or its normal form stands before another path makes no
difference. It is the same for two paths exactly if they lead to the same place from everywhere. -/
theorem normalize_canonical (p : Path) :
    p.normalize.normalize = p.normalize ∧
    p.normalize.isAbsolute = p.isAbsolute ∧
    .current ∉ p.normalize.components ∧
    (p.isAbsolute → .parent ∉ p.normalize.components) ∧
    (¬p.isAbsolute → ∃ k rest,
      p.normalize.components = List.replicate k .parent ++ rest ∧ .parent ∉ rest) ∧
    (∀ q : Path, (p.join q).normalize = (p.normalize.join q).normalize) ∧
    ∀ q : Path, p.normalize = q.normalize ↔ ∀ start, p.place start = q.place start := by
  refine ⟨normalize_normalize p, isAbsolute_normalize p, current_notMem_normalize p,
    parent_notMem_normalize, exists_leading_parents, fun q => ?_, fun q => normalize_eq_iff_place⟩
  exact (normalize_join_normalize p q).symm

/-- A path that leads above its start, and one that would lead above the root. -/
theorem climbingPaths_normalized :
    let p : Path := ⟨"./a/../../b//."⟩
    let q : Path := ⟨"/../a/./.."⟩
    (¬p.isAbsolute ∧ ∃ k rest,
      p.normalize.components = List.replicate k .parent ++ rest ∧ .parent ∉ rest) ∧
    (q.isAbsolute ∧ .parent ∉ q.normalize.components) ∧
    (p.join ⟨"../../c"⟩).normalize = (p.normalize.join ⟨"../../c"⟩).normalize ∧
    p.normalize ≠ q.normalize := by
  intro p q
  have hp : ¬p.isAbsolute := by decide
  have hq : q.isAbsolute := by decide
  obtain ⟨-, -, -, -, hparents, hjoin, hplace⟩ := normalize_canonical p
  obtain ⟨-, -, -, hnone, -⟩ := normalize_canonical q
  refine ⟨⟨hp, hparents hp⟩, ⟨hq, hnone hq⟩, hjoin _, fun h => ?_⟩
  exact absurd ((hplace q).1 h []) (by decide)

end JobBundler.Path
