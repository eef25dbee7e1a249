import JobBundler.Proofs.Path.Components

/-!
# Where a path leads

A place is the list of names that lead to it from the root, the last one first. `place` follows the
components of a path from a place, without a look at any disk. Its result is decided by the normal
form of the path: by the number of unmatched `..` that it starts with (`ups`) and the names after
them (`names`), as `place_eq` says. Two absolute paths have the same normal form if and only if they
lead to the same place (`normalize_eq_iff`).
-/

namespace JobBundler.Path

/-- The place that one component leads to. -/
def Component.move : List String → Component → List String
  | _, root => []
  | place, current => place
  | place, parent => place.tail
  | place, normal name => name :: place

/-- The place that the path leads to from a place. -/
def place (start : List String) (p : Path) : List String :=
  p.components.foldl Component.move start

theorem place_of_isAbsolute {p : Path} (h : p.isAbsolute) (start : List String) :
    p.place start = (stepsOf p.text.toList).foldl Component.move [] := by
  rw [place, components_of_isAbsolute h]; rfl

theorem place_of_not_isAbsolute {p : Path} (h : ¬p.isAbsolute) (start : List String) :
    p.place start = (stepsOf p.text.toList).foldl Component.move start := by
  rw [place, components_eq, List.foldl_append]
  rcases lead_of_not_isAbsolute h with hl | hl <;> rw [hl] <;> rfl

@[simp] theorem place_join (p q : Path) (start : List String) :
    (p.join q).place start = q.place (p.place start) := by
  by_cases hq : q.isAbsolute
  · rw [join_of_isAbsolute hq, place_of_isAbsolute hq, place_of_isAbsolute hq]
  · by_cases hp : p.text.toList = []
    · rw [join_of_text_eq_nil hp, place, place, place, components_of_text_eq_nil hp]
      rfl
    · rw [place_of_not_isAbsolute hq, place, components_join hq hp, List.foldl_append]
      rfl

theorem place_div {n : String} (h : (Component.normal n).IsStep) (p : Path) (start : List String) :
    (p / n).place start = n :: p.place start := by
  rw [place, components_div_name h, List.foldl_concat, ← place, Component.move]

theorem foldl_move_replicate_parent (k : Nat) (start : List String) :
    (List.replicate k Component.parent).foldl Component.move start = start.drop k := by
  induction k generalizing start with
  | zero => rfl
  | succ k ih => rw [List.replicate_succ, List.foldl_cons, ih, Component.move, List.drop_tail]

theorem foldl_move_map_normal (ns start : List String) :
    (ns.map Component.normal).foldl Component.move start = ns.reverse ++ start := by
  induction ns generalizing start with
  | nil => rfl
  | cons n ns ih => rw [List.map_cons, List.foldl_cons, ih]; simp [Component.move]

/-! ## The normal form -/

theorem mem_of_mem_foldl_normalStep {c : Component} {cs stack : List Component}
    (h : c ∈ cs.foldl normalStep stack) : c ∈ stack ∨ c ∈ cs := by
  induction cs generalizing stack with
  | nil => exact .inl h
  | cons d cs ih =>
    rcases ih h with hs | hc
    · unfold normalStep at hs
      split at hs
      · exact .inl hs
      · exact .inl (List.mem_cons_of_mem _ hs)
      · exact .inl hs
      · rcases List.mem_cons.1 hs with rfl | hs
        · exact .inr List.mem_cons_self
        · exact .inl hs
    · exact .inr (List.mem_cons_of_mem _ hc)

theorem normalStep_parent_replicate (k : Nat) :
    normalStep (List.replicate k .parent) .parent = List.replicate (k + 1) .parent := by
  cases k <;> rfl

/-- From the names `ns` above `k` unmatched `..`, relative components lead to names above unmatched
`..` again, and these lead from any place to where the components do. -/
theorem exists_foldl_normalStep {cs : List Component} (h : .root ∉ cs) (k : Nat)
    (ns : List String) :
    ∃ k' ns', cs.foldl normalStep (ns.map .normal ++ List.replicate k .parent) =
        ns'.map .normal ++ List.replicate k' .parent ∧
      ∀ start : List String,
        cs.foldl Component.move (ns ++ start.drop k) = ns' ++ start.drop k' := by
  induction cs generalizing k ns with
  | nil => exact ⟨k, ns, rfl, fun _ => rfl⟩
  | cons c cs ih =>
    rw [List.mem_cons, not_or] at h
    simp only [List.foldl_cons]
    cases c with
    | root => exact absurd rfl h.1
    | current =>
      have hs : ∀ s, normalStep s .current = s := fun s => by unfold normalStep; rfl
      rw [hs]
      exact ih h.2 k ns
    | parent =>
      cases ns with
      | nil =>
        rw [List.map_nil, List.nil_append, normalStep_parent_replicate]
        obtain ⟨k', ns', hs, hm⟩ := ih h.2 (k + 1) []
        refine ⟨k', ns', hs, fun start => ?_⟩
        rw [← hm start, List.nil_append, Component.move, List.tail_drop, List.nil_append]
      | cons n ns => exact ih h.2 k ns
    | normal n => exact ih h.2 k (n :: ns)

theorem foldl_normalStep_root {cs : List Component} (h : .root ∉ cs) (ns : List String) :
    cs.foldl normalStep (ns.map .normal ++ [.root]) =
      (cs.foldl Component.move ns).map .normal ++ [.root] := by
  induction cs generalizing ns with
  | nil => rfl
  | cons c cs ih =>
    rw [List.mem_cons, not_or] at h
    simp only [List.foldl_cons]
    cases c with
    | root => exact absurd rfl h.1
    | current => exact ih h.2 ns
    | parent =>
      cases ns with
      | nil => exact ih h.2 []
      | cons n ns => exact ih h.2 ns
    | normal n => exact ih h.2 (n :: ns)

/-- How many names the path leads up from where it starts. -/
def ups (p : Path) : Nat :=
  (normalComponents p.components).count .parent

/-- The name of a component that is one. -/
def Component.name? : Component → Option String
  | normal name => some name
  | _ => none

/-- The names of the normal form. -/
def names (p : Path) : List String :=
  (normalComponents p.components).filterMap Component.name?

theorem filterMap_name?_map_normal (ns : List String) :
    (ns.map Component.normal).filterMap Component.name? = ns := by
  rw [List.filterMap_map]
  exact List.filterMap_some

theorem count_parent_map_normal (ns : List String) :
    (ns.map Component.normal).count .parent = 0 :=
  List.count_eq_zero.2 (by simp)

theorem root_notMem_stepsOf (cs : List Char) : .root ∉ stepsOf cs :=
  fun h => (isStep_of_mem_stepsOf h).ne_root rfl

theorem foldl_normalStep_components {p : Path} (h : ¬p.isAbsolute) :
    normalComponents p.components = ((stepsOf p.text.toList).foldl normalStep []).reverse := by
  rw [normalComponents, components_eq, List.foldl_append]
  rcases lead_of_not_isAbsolute h with hl | hl <;> rw [hl] <;> rfl

theorem normalComponents_of_not_isAbsolute {p : Path} (h : ¬p.isAbsolute) :
    normalComponents p.components =
        List.replicate p.ups .parent ++ p.names.map .normal ∧
      ∀ start, p.place start = p.names.reverse ++ start.drop p.ups := by
  obtain ⟨k, ns, hs, hm⟩ := exists_foldl_normalStep (root_notMem_stepsOf p.text.toList) 0 []
  rw [List.map_nil, List.replicate_zero, List.append_nil] at hs
  have hn : normalComponents p.components =
      List.replicate k .parent ++ ns.reverse.map .normal := by
    rw [foldl_normalStep_components h, hs]
    simp
  have hk : p.ups = k := by
    rw [ups, hn, List.count_append, count_parent_map_normal, List.count_replicate_self,
      Nat.add_zero]
  have hns : p.names = ns.reverse := by
    rw [names, hn, List.filterMap_append, filterMap_name?_map_normal]
    simp [Component.name?]
  refine ⟨by rw [hn, hk, hns], fun start => ?_⟩
  rw [place_of_not_isAbsolute h, hk, hns, List.reverse_reverse, ← hm start]
  rfl

theorem normalComponents_of_isAbsolute {p : Path} (h : p.isAbsolute) :
    normalComponents p.components = .root :: p.names.map .normal ∧
      ∀ start, p.place start = p.names.reverse := by
  have hr := foldl_normalStep_root (root_notMem_stepsOf p.text.toList) []
  have hn : normalComponents p.components = .root ::
      (((stepsOf p.text.toList).foldl Component.move []).reverse.map .normal) := by
    rw [normalComponents, components_of_isAbsolute h, List.foldl_cons]
    show ((stepsOf p.text.toList).foldl normalStep [.root]).reverse = _
    rw [show ([.root] : List Component) = ([] : List String).map .normal ++ [.root] from rfl, hr]
    simp
  have hns : p.names = ((stepsOf p.text.toList).foldl Component.move []).reverse := by
    rw [names, hn, List.filterMap_cons_none rfl, filterMap_name?_map_normal]
  refine ⟨by rw [hn, hns], fun start => ?_⟩
  rw [place_of_isAbsolute h, hns, List.reverse_reverse]

theorem normalComponents_components (p : Path) :
    (p.isAbsolute ∧ p.ups = 0 ∧ normalComponents p.components = .root :: p.names.map .normal) ∨
      (¬p.isAbsolute ∧ normalComponents p.components =
        List.replicate p.ups .parent ++ p.names.map .normal) := by
  by_cases h : p.isAbsolute
  · have hn := (normalComponents_of_isAbsolute h).1
    refine .inl ⟨h, ?_, hn⟩
    rw [ups, hn, List.count_cons_of_ne (by decide), count_parent_map_normal]
  · exact .inr ⟨h, (normalComponents_of_not_isAbsolute h).1⟩

theorem ups_of_isAbsolute {p : Path} (h : p.isAbsolute) : p.ups = 0 := by
  rcases normalComponents_components p with ⟨-, hups, -⟩ | ⟨hn, -⟩
  · exact hups
  · exact absurd h hn

/-- The place that a path leads to, by its normal form. -/
theorem place_eq (p : Path) (start : List String) :
    p.place start = p.names.reverse ++ if p.isAbsolute then [] else start.drop p.ups := by
  by_cases h : p.isAbsolute
  · rw [if_pos h, List.append_nil, (normalComponents_of_isAbsolute h).2]
  · rw [if_neg h, (normalComponents_of_not_isAbsolute h).2]

theorem place_eq_foldl (p : Path) (start : List String) :
    p.place start = (normalComponents p.components).foldl Component.move start := by
  by_cases h : p.isAbsolute
  · rw [(normalComponents_of_isAbsolute h).2, (normalComponents_of_isAbsolute h).1, List.foldl_cons,
      foldl_move_map_normal]
    simp [Component.move]
  · rw [(normalComponents_of_not_isAbsolute h).2, (normalComponents_of_not_isAbsolute h).1,
      List.foldl_append, foldl_move_replicate_parent, foldl_move_map_normal]

theorem isStep_of_mem_names {p : Path} {n : String} (h : n ∈ p.names) :
    (Component.normal n).IsStep := by
  obtain ⟨c, hc, hn⟩ := List.mem_filterMap.1 h
  have hcn : c = .normal n := by
    cases c <;> cases hn; rfl
  subst hcn
  have hm : Component.normal n ∈ p.components := by
    rcases mem_of_mem_foldl_normalStep (List.mem_reverse.1 hc) with h | h
    · cases h
    · exact h
  rw [components_eq, List.mem_append] at hm
  rcases hm with hm | hm
  · rw [Option.mem_toList] at hm
    by_cases ha : p.isAbsolute
    · rw [lead_of_isAbsolute ha] at hm; cases hm
    · rcases lead_of_not_isAbsolute ha with hl | hl <;> rw [hl] at hm <;> cases hm
  · exact isStep_of_mem_stepsOf hm

theorem isStep_of_mem_map_names {p : Path} : ∀ c ∈ p.names.map Component.normal, c.IsStep := by
  intro c hc
  obtain ⟨n, hn, rfl⟩ := List.mem_map.1 hc
  exact isStep_of_mem_names hn

theorem isStep_of_mem_normalComponents {p : Path} (h : ¬p.isAbsolute) {c : Component}
    (hc : c ∈ normalComponents p.components) : c.IsStep := by
  rw [(normalComponents_of_not_isAbsolute h).1] at hc
  rcases List.mem_append.1 hc with hc | hc
  · exact (List.eq_of_mem_replicate hc) ▸ Component.isStep_parent
  · exact isStep_of_mem_map_names c hc

theorem eq_root_or_isStep {p : Path} {c : Component} (hc : c ∈ normalComponents p.components) :
    c = .root ∨ c.IsStep := by
  by_cases h : p.isAbsolute
  · rw [(normalComponents_of_isAbsolute h).1, List.mem_cons] at hc
    exact hc.imp_right (isStep_of_mem_map_names c)
  · exact .inr (isStep_of_mem_normalComponents h hc)

theorem components_normalize (p : Path) :
    p.normalize.components = normalComponents p.components := by
  by_cases h : p.isAbsolute
  · rw [normalize, (normalComponents_of_isAbsolute h).1]
    exact components_ofComponents_root isStep_of_mem_map_names
  · exact components_ofComponents fun c hc => isStep_of_mem_normalComponents h hc

/-- What is normal stays as it is. -/
theorem normalComponents_normalComponents (p : Path) :
    normalComponents (normalComponents p.components) = normalComponents p.components := by
  have hnames (stack : List Component) (ns : List String) :
      (ns.map Component.normal).foldl normalStep stack =
        (ns.map Component.normal).reverse ++ stack := by
    induction ns generalizing stack with
    | nil => rfl
    | cons n ns ih =>
      have hs : normalStep stack (.normal n) = .normal n :: stack := by unfold normalStep; simp
      rw [List.map_cons, List.foldl_cons, hs, ih]
      simp
  have hups (k : Nat) : (List.replicate k Component.parent).foldl normalStep [] =
      List.replicate k .parent := by
    induction k with
    | zero => rfl
    | succ k ih =>
      rw [List.replicate_succ', List.foldl_concat, ih, normalStep_parent_replicate,
        List.replicate_succ']
  by_cases h : p.isAbsolute
  · rw [(normalComponents_of_isAbsolute h).1, normalComponents, List.foldl_cons]
    show List.reverse (List.foldl normalStep [.root] _) = _
    rw [hnames]
    simp
  · rw [(normalComponents_of_not_isAbsolute h).1, normalComponents, List.foldl_append, hups, hnames]
    simp

theorem normalize_eq_iff_normalComponents {p q : Path} :
    p.normalize = q.normalize ↔
      normalComponents p.components = normalComponents q.components := by
  constructor
  · intro h
    rw [← components_normalize, h, components_normalize]
  · intro h
    rw [normalize, h, normalize]

theorem normalize_normalize (p : Path) : p.normalize.normalize = p.normalize := by
  rw [normalize_eq_iff_normalComponents, components_normalize, normalComponents_normalComponents]

theorem normalComponents_concat_normal (cs : List Component) (n : String) :
    normalComponents (cs ++ [.normal n]) = normalComponents cs ++ [.normal n] := by
  rw [normalComponents, List.foldl_append]
  unfold normalComponents
  rw [List.foldl_cons, List.foldl_nil, normalStep, List.reverse_cons]
  all_goals simp

theorem isAbsolute_div {n : String} (h : (Component.normal n).IsStep) (p : Path) :
    (p / n).isAbsolute = p.isAbsolute := by
  rw [div_eq_join, isAbsolute_join, Bool.eq_false_iff.2 (not_isAbsolute_of_isStep h),
    Bool.or_false]

theorem ups_div {n : String} (h : (Component.normal n).IsStep) (p : Path) :
    (p / n).ups = p.ups := by
  rw [ups, components_div_name h, normalComponents_concat_normal, List.count_append, ups]
  simp

/-- Absolute paths have the same normal form exactly if they lead to the same place. -/
theorem normalize_eq_iff {p q : Path} (hp : p.isAbsolute) (hq : q.isAbsolute) :
    p.normalize = q.normalize ↔ p.place [] = q.place [] := by
  rw [normalize_eq_iff_normalComponents, (normalComponents_of_isAbsolute hp).1,
    (normalComponents_of_isAbsolute hq).1, (normalComponents_of_isAbsolute hp).2,
    (normalComponents_of_isAbsolute hq).2, List.reverse_inj, List.cons_inj_right,
    List.map_inj_right fun _ _ => Component.normal.inj]

/-- From far enough below the root, a relative path leads as far up as it says. -/
theorem length_place {p : Path} (h : ¬p.isAbsolute) (start : List String) :
    (p.place start).length = p.names.length + (start.length - p.ups) := by
  rw [place_eq, if_neg h, List.length_append, List.length_reverse, List.length_drop]

/-- An absolute path with `n` names. -/
def deep (n : Nat) : Path :=
  ofComponents (.root :: List.replicate n (.normal "d"))

theorem components_deep (n : Nat) :
    (deep n).components = .root :: List.replicate n (.normal "d") :=
  components_ofComponents_root fun c hc => by
    rw [List.eq_of_mem_replicate hc]; decide

theorem isAbsolute_iff_components {p : Path} : p.isAbsolute ↔ p.components.head? = some .root := by
  constructor
  · intro h; rw [components_of_isAbsolute h]; rfl
  · intro h
    by_contra ha
    have hr : .root ∉ p.components := by
      rw [components_eq, List.mem_append, not_or]
      refine ⟨?_, root_notMem_stepsOf _⟩
      rcases lead_of_not_isAbsolute ha with hl | hl <;> rw [hl] <;> simp
    exact hr (List.mem_of_head? h)

theorem isAbsolute_deep (n : Nat) : (deep n).isAbsolute :=
  isAbsolute_iff_components.2 (by rw [components_deep]; rfl)

theorem length_place_deep (n : Nat) : ((deep n).place []).length = n := by
  rw [place, components_deep, List.foldl_cons, ← List.map_replicate, foldl_move_map_normal]
  simp [Component.move]

end JobBundler.Path
