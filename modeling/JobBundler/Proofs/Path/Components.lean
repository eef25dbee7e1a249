import JobBundler.Path.Normal
import Mathlib.Data.List.Basic

/-!
# Components of joined paths

`stepsOf` reads the components of a text after the start of a path. It takes a separator apart into
the components on both sides (`stepsOf_append_slash`), and so the components of a joined path are
those of its two parts (`components_join`). A path put together from the components of another one
has these components again (`components_ofComponents`).
-/

namespace JobBundler.Path

/-! ## Segments -/

theorem segments_ne_nil (cs : List Char) : segments cs ≠ [] := by
  induction cs with
  | nil => simp [segments]
  | cons c cs ih =>
    unfold segments
    split
    · simp
    · split <;> simp

theorem segments_cons_of_ne {c : Char} (hc : c ≠ '/') {cs s : List Char} {ss : List (List Char)}
    (h : segments cs = s :: ss) : segments (c :: cs) = (c :: s) :: ss := by
  simp [segments, hc, h]

theorem segments_append_slash (as bs : List Char) :
    segments (as ++ '/' :: bs) = segments as ++ segments bs := by
  induction as with
  | nil => simp [segments]
  | cons a as ih =>
    by_cases ha : a = '/'
    · subst ha; simp [segments, ih]
    · obtain ⟨s, ss, hs⟩ := List.exists_cons_of_ne_nil (segments_ne_nil as)
      have hs' : segments (as ++ '/' :: bs) = s :: (ss ++ segments bs) := by rw [ih, hs]; rfl
      rw [segments_cons_of_ne ha hs, List.cons_append, segments_cons_of_ne ha hs']
      rfl

theorem segments_of_notMem {cs : List Char} (h : '/' ∉ cs) : segments cs = [cs] := by
  induction cs with
  | nil => rfl
  | cons c cs ih =>
    rw [List.mem_cons, not_or] at h
    exact segments_cons_of_ne (Ne.symm h.1) (ih h.2)

theorem notMem_of_mem_segments {cs s : List Char} (h : s ∈ segments cs) : '/' ∉ s := by
  induction cs generalizing s with
  | nil => simp_all [segments]
  | cons c cs ih =>
    by_cases hc : c = '/'
    · subst hc
      simp only [segments, if_true, List.mem_cons] at h
      rcases h with rfl | h
      · exact List.not_mem_nil
      · exact ih h
    · obtain ⟨t, ts, ht⟩ := List.exists_cons_of_ne_nil (segments_ne_nil cs)
      rw [segments_cons_of_ne hc ht, List.mem_cons] at h
      rw [ht] at ih
      rcases h with rfl | h
      · rw [List.mem_cons, not_or]
        exact ⟨Ne.symm hc, ih List.mem_cons_self⟩
      · exact ih (List.mem_cons_of_mem _ h)

theorem mem_of_mem_segments {cs s : List Char} {a : Char} (h : s ∈ segments cs) (ha : a ∈ s) :
    a ∈ cs := by
  induction cs generalizing s with
  | nil =>
    obtain rfl := List.mem_singleton.1 h
    cases ha
  | cons c cs ih =>
    by_cases hc : c = '/'
    · rw [segments, if_pos hc] at h
      rcases List.mem_cons.1 h with rfl | h
      · cases ha
      · exact List.mem_cons_of_mem _ (ih h ha)
    · obtain ⟨t, ts, ht⟩ := List.exists_cons_of_ne_nil (segments_ne_nil cs)
      rw [segments_cons_of_ne hc ht] at h
      rw [ht] at ih
      rcases List.mem_cons.1 h with rfl | h
      · rcases List.mem_cons.1 ha with rfl | ha
        · exact List.mem_cons_self
        · exact List.mem_cons_of_mem _ (ih List.mem_cons_self ha)
      · exact List.mem_cons_of_mem _ (ih (List.mem_cons_of_mem _ h) ha)

theorem mem_of_mem_intercalate {ss : List (List Char)} {a : Char}
    (ha : a ∈ List.intercalate ['/'] ss) : a = '/' ∨ ∃ s ∈ ss, a ∈ s := by
  induction ss with
  | nil => cases ha
  | cons s ss ih =>
    cases ss with
    | nil => exact .inr ⟨s, List.mem_cons_self, by simpa using ha⟩
    | cons t ts =>
      rw [List.intercalate_cons_cons, List.append_assoc, List.mem_append, List.mem_append] at ha
      rcases ha with ha | ha | ha
      · exact .inr ⟨s, List.mem_cons_self, ha⟩
      · exact .inl (List.mem_singleton.1 ha)
      · refine (ih ha).imp_right ?_
        rintro ⟨u, hu, ha⟩
        exact ⟨u, List.mem_cons_of_mem _ hu, ha⟩

/-! ## Components after the start -/

/-- The components of a text that stands after the start of a path. -/
def stepsOf (cs : List Char) : List Component :=
  (segments cs).filterMap componentOf?

@[simp] theorem stepsOf_nil : stepsOf [] = [] := rfl

theorem stepsOf_append_slash (as bs : List Char) :
    stepsOf (as ++ '/' :: bs) = stepsOf as ++ stepsOf bs := by
  simp [stepsOf, segments_append_slash]

@[simp] theorem stepsOf_slash_cons (cs : List Char) : stepsOf ('/' :: cs) = stepsOf cs :=
  stepsOf_append_slash [] cs

@[simp] theorem stepsOf_dot_slash_cons (cs : List Char) : stepsOf ('.' :: '/' :: cs) = stepsOf cs :=
  stepsOf_append_slash ['.'] cs

theorem stepsOf_concat_slash (cs : List Char) : stepsOf (cs ++ ['/']) = stepsOf cs := by
  rw [stepsOf_append_slash, stepsOf_nil, List.append_nil]

theorem stepsOf_intercalate (ss : List (List Char)) :
    stepsOf (List.intercalate ['/'] ss) = ss.flatMap stepsOf := by
  induction ss with
  | nil => rfl
  | cons s ss ih =>
    match ss with
    | [] => simp
    | t :: ts =>
      rw [List.intercalate_cons_cons, List.append_assoc, List.singleton_append,
        stepsOf_append_slash, ih, ← List.flatMap_cons]

theorem text_of_componentOf? {s : List Char} {c : Component} (h : componentOf? s = some c) :
    c.text.toList = s := by
  unfold componentOf? at h
  split at h
  · cases h
  · split at h <;> cases h
    · simp_all [Component.text]
    · simp [Component.text]

/-- A component that stands for itself wherever it is put: a name, or `..`. -/
def Component.IsStep (c : Component) : Prop :=
  stepsOf c.text.toList = [c]

instance (c : Component) : Decidable c.IsStep :=
  inferInstanceAs (Decidable (_ = _))

theorem isStep_of_mem_stepsOf {cs : List Char} {c : Component} (h : c ∈ stepsOf cs) : c.IsStep := by
  obtain ⟨s, hs, hc⟩ := List.mem_filterMap.1 h
  rw [Component.IsStep, stepsOf, text_of_componentOf? hc,
    segments_of_notMem (notMem_of_mem_segments hs)]
  simp [hc]

namespace Component

theorem isStep_normal {n : String} (hs : '/' ∉ n.toList) (hl : 2 < n.toList.length) :
    (normal n).IsStep := by
  have hc : componentOf? n.toList = some (normal n) := by
    have hne : n.toList ≠ [] ∧ n.toList ≠ ['.'] ∧ n.toList ≠ ['.', '.'] := by
      refine ⟨?_, ?_, ?_⟩ <;> (intro h; rw [h] at hl; simp at hl)
    simp [componentOf?, isSkipped, hne]
  rw [IsStep, text, stepsOf, segments_of_notMem hs]
  simp [hc]

theorem isStep_parent : Component.parent.IsStep := by decide

theorem IsStep.ne_root {c : Component} (h : c.IsStep) : c ≠ .root := by
  rintro rfl; exact absurd h (by decide)

theorem IsStep.slash_notMem {c : Component} (h : c.IsStep) : '/' ∉ c.text.toList := by
  obtain ⟨s, hs, hc⟩ := List.mem_filterMap.1 (h ▸ List.mem_singleton_self c : c ∈ stepsOf _)
  rw [text_of_componentOf? hc]
  exact notMem_of_mem_segments hs

end Component

/-! ## Components of a path -/

theorem isAbsolute_iff {p : Path} : p.isAbsolute ↔ ∃ cs, p.text.toList = '/' :: cs := by
  unfold isAbsolute
  cases p.text.toList <;> simp

theorem components_eq (p : Path) : p.components = p.parts.lead.toList ++ stepsOf p.text.toList := by
  unfold components parts
  split
  · rename_i cs hcs; rw [hcs, stepsOf_slash_cons]; rfl
  · rename_i cs hcs; rw [hcs, stepsOf_dot_slash_cons]; rfl
  · rename_i hcs; rw [hcs]; rfl
  · rfl

theorem mem_text_of_mem_components {p : Path} {c : Component} {a : Char} (h : c ∈ p.components)
    (ha : a ∈ c.text.toList) : a ∈ p.text.toList := by
  rw [components_eq] at h
  rcases List.mem_append.1 h with h | h
  · unfold parts at h
    split at h
    · rename_i hcs
      obtain rfl : c = .root := by simpa using h
      obtain rfl : a = '/' := by simpa [Component.text] using ha
      simp [hcs]
    · rename_i hcs
      obtain rfl : c = .current := by simpa using h
      obtain rfl : a = '.' := by simpa [Component.text] using ha
      simp [hcs]
    · rename_i hcs
      obtain rfl : c = .current := by simpa using h
      obtain rfl : a = '.' := by simpa [Component.text] using ha
      simp [hcs]
    · cases h
  · obtain ⟨s, hs, hc⟩ := List.mem_filterMap.1 h
    rw [text_of_componentOf? hc] at ha
    exact mem_of_mem_segments hs ha

theorem lead_of_isAbsolute {p : Path} (h : p.isAbsolute) : p.parts.lead = some .root := by
  obtain ⟨cs, hcs⟩ := isAbsolute_iff.1 h
  simp [parts, hcs]

theorem components_of_isAbsolute {p : Path} (h : p.isAbsolute) :
    p.components = .root :: stepsOf p.text.toList := by
  rw [components_eq, lead_of_isAbsolute h]; rfl

theorem lead_of_not_isAbsolute {p : Path} (h : ¬p.isAbsolute) :
    p.parts.lead = none ∨ p.parts.lead = some .current := by
  rw [isAbsolute_iff, not_exists] at h
  unfold parts
  split
  · rename_i cs hcs; exact absurd hcs (h cs)
  all_goals simp

/-- The start of a path is decided before its first separator. -/
theorem lead_eq_of_append {p q : Path} {bs : List Char} (hne : p.text.toList ≠ [])
    (hq : q.text.toList = p.text.toList ++ bs)
    (hsep : p.text.toList.getLast? = some '/' ∨ bs.head? = some '/') :
    q.parts.lead = p.parts.lead := by
  unfold parts
  rw [hq]
  match hp : p.text.toList with
  | [] => exact absurd hp hne
  | [a] =>
    rw [hp] at hsep
    by_cases ha : a = '.'
    · subst ha
      cases bs with
      | nil => rfl
      | cons b bs =>
        have hb : b = '/' := by simpa using hsep
        subst hb; rfl
    · by_cases hs : a = '/'
      · subst hs; rfl
      · simp [ha, hs]
  | a :: b :: rest =>
    by_cases ha : a = '/'
    · subst ha; rfl
    · by_cases hd : a = '.' ∧ b = '/'
      · obtain ⟨rfl, rfl⟩ := hd; rfl
      · simp only [List.cons_append]
        split <;> split <;> simp_all

theorem isAbsolute_of_append {p q : Path} {bs : List Char} (hne : p.text.toList ≠ [])
    (hq : q.text.toList = p.text.toList ++ bs) : q.isAbsolute = p.isAbsolute := by
  obtain ⟨c, cs, hc⟩ := List.exists_cons_of_ne_nil hne
  simp [isAbsolute, hq, hc]

/-! ## Joined paths -/

theorem div_eq_join (p : Path) (name : String) : p / name = p.join ⟨name⟩ := rfl

theorem join_of_isAbsolute {p q : Path} (h : q.isAbsolute) : p.join q = q :=
  if_pos h

theorem join_of_text_eq_nil {p q : Path} (h : p.text.toList = []) : p.join q = q := by
  have hp : p.text = "" := String.toList_inj.1 h
  unfold join
  split
  · rfl
  · simp [hp]

/-- The text of a joined path is that of its left part with the other after it; the separator
between the two adds no component. -/
theorem exists_text_join {p q : Path} (hq : ¬q.isAbsolute) (hp : p.text.toList ≠ []) :
    ∃ bs, (p.join q).text.toList = p.text.toList ++ bs ∧
      (p.text.toList.getLast? = some '/' ∨ bs.head? = some '/') ∧
      stepsOf (p.join q).text.toList = stepsOf p.text.toList ++ stepsOf q.text.toList := by
  unfold join
  rw [if_neg hq]
  by_cases hl : p.text.toList.getLast? = some '/'
  · obtain ⟨as, has⟩ := List.getLast?_eq_some_iff.1 hl
    refine ⟨q.text.toList, by simp [hl], .inl hl, ?_⟩
    simp [has, stepsOf_append_slash]
  · have he : p.text.isEmpty = false := by
      rw [Bool.eq_false_iff, Ne, String.isEmpty_iff]
      rintro h; exact hp (by rw [h]; rfl)
    refine ⟨'/' :: q.text.toList, ?_, .inr rfl, ?_⟩
    · simp [he, hl]
    · simp [he, hl, stepsOf_append_slash]

theorem mem_text_join {p q : Path} {a : Char} (ha : a ∈ (p.join q).text.toList) :
    a ∈ p.text.toList ∨ a ∈ q.text.toList ∨ a = '/' := by
  unfold join at ha
  split at ha
  · exact .inr (.inl ha)
  · split at ha
    · rw [String.toList_append, List.mem_append] at ha
      exact ha.imp_right .inl
    · rw [String.toList_append, String.toList_append, List.mem_append, List.mem_append] at ha
      rcases ha with (ha | ha) | ha
      · exact .inl ha
      · exact .inr (.inr (by simpa using ha))
      · exact .inr (.inl ha)

/-- A relative path adds the components after its start. -/
theorem components_join {p q : Path} (hq : ¬q.isAbsolute) (hp : p.text.toList ≠ []) :
    (p.join q).components = p.components ++ stepsOf q.text.toList := by
  obtain ⟨bs, ht, hsep, hs⟩ := exists_text_join hq hp
  rw [components_eq, components_eq p, hs, lead_eq_of_append hp ht hsep, List.append_assoc]

@[simp] theorem isAbsolute_join {p q : Path} :
    (p.join q).isAbsolute = (p.isAbsolute || q.isAbsolute) := by
  by_cases hq : q.isAbsolute
  · rw [join_of_isAbsolute hq, hq, Bool.or_true]
  · by_cases hp : p.text.toList = []
    · rw [join_of_text_eq_nil hp]; simp [isAbsolute, hp]
    · obtain ⟨bs, ht, -⟩ := exists_text_join hq hp
      rw [isAbsolute_of_append hp ht, Bool.eq_false_iff.2 hq, Bool.or_false]

/-! ## Paths of given components -/

theorem Component.IsStep.not_isAbsolute {c : Component} (h : c.IsStep) :
    ¬(Path.mk c.text).isAbsolute := by
  rw [isAbsolute_iff]
  rintro ⟨cs, hcs⟩
  exact h.slash_notMem (hcs ▸ List.mem_cons_self)

theorem components_mk_text {c : Component} (h : c.IsStep) : (Path.mk c.text).components = [c] := by
  rw [components_eq, h]
  rcases lead_of_not_isAbsolute h.not_isAbsolute with hl | hl
  · rw [hl]; rfl
  · exfalso
    unfold parts at hl
    split at hl
    · cases hl
    · rename_i cs hcs
      exact h.slash_notMem (hcs ▸ List.mem_cons_of_mem _ List.mem_cons_self)
    · rename_i hcs
      rw [Component.IsStep, hcs] at h
      cases h
    · cases hl

theorem components_of_text_eq_nil {p : Path} (h : p.text.toList = []) : p.components = [] := by
  simp [components, parts, h, segments, componentOf?, isSkipped]

theorem components_div {c : Component} (h : c.IsStep) (p : Path) :
    (p / c.text).components = p.components ++ [c] := by
  rw [div_eq_join]
  by_cases hp : p.text.toList = []
  · rw [join_of_text_eq_nil hp, components_of_text_eq_nil hp, components_mk_text h]; rfl
  · rw [components_join h.not_isAbsolute hp, h]

theorem not_isAbsolute_of_isStep {n : String} (h : (Component.normal n).IsStep) :
    ¬(Path.mk n).isAbsolute :=
  h.not_isAbsolute

theorem components_div_name {n : String} (h : (Component.normal n).IsStep) (p : Path) :
    (p / n).components = p.components ++ [.normal n] :=
  components_div h p

theorem foldl_div_components {steps : List Component} (h : ∀ c ∈ steps, c.IsStep) (p : Path) :
    (steps.foldl (fun p c => p / c.text) p).components = p.components ++ steps := by
  induction steps generalizing p with
  | nil => simp
  | cons c cs ih =>
    rw [List.foldl_cons, ih fun d hd => h d (List.mem_cons_of_mem _ hd),
      components_div (h c List.mem_cons_self), List.append_assoc, List.singleton_append]

theorem components_ofComponents {steps : List Component} (h : ∀ c ∈ steps, c.IsStep) :
    (ofComponents steps).components = steps :=
  foldl_div_components h ⟨""⟩

theorem components_ofComponents_root {steps : List Component} (h : ∀ c ∈ steps, c.IsStep) :
    (ofComponents (.root :: steps)).components = .root :: steps :=
  foldl_div_components h ⟨"/"⟩

end JobBundler.Path
