import JobBundler.Path.Specifier
import JobBundler.Proofs.Path.Place

/-!
# Where a specifier leads

A specifier leads up from the importing directory to what this directory and the target have in
common, and down again from there (`place_relative`). It reaches the target from every working
directory if and only if both paths start at the root or neither does, and the directory leads up no
farther than the target (`relative_resolves_iff`): what a path has left behind on its way up cannot be
named from there.
-/

namespace JobBundler

open JobBundler.Path

/-! ## The common start -/

namespace Specifier

section
variable {α : Type} [DecidableEq α]

theorem commonLength_append (pre as bs : List α) :
    commonLength (pre ++ as) (pre ++ bs) = pre.length + commonLength as bs := by
  induction pre with
  | nil => simp
  | cons a pre ih => simp [commonLength, ih]; omega

theorem commonLength_of_head?_ne {as bs : List α} (h : ∀ a ∈ as.head?, a ∉ bs.head?) :
    commonLength as bs = 0 := by
  cases as with
  | nil => rfl
  | cons a as =>
    cases bs with
    | nil => rfl
    | cons b bs =>
      have hab : a ≠ b := by rintro rfl; simp at h
      simp [commonLength, hab]

theorem commonLength_le (as bs : List α) : commonLength as bs ≤ as.length := by
  fun_induction commonLength as bs with
  | case1 => simpa
  | case2 => simp
  | case3 => simp

theorem take_commonLength (as bs : List α) :
    bs.take (commonLength as bs) = as.take (commonLength as bs) := by
  fun_induction commonLength as bs with
  | case1 a as bs ih => rw [List.take_succ_cons, List.take_succ_cons, ih]
  | case2 => rfl
  | case3 => rfl

end

/-! ## Steps -/

theorem stepsOf_root : stepsOf Component.root.text.toList = [] := by decide

theorem flatMap_stepsOf_text {cs : List Component} (h : ∀ c ∈ cs, c = .root ∨ c.IsStep) :
    cs.flatMap (fun c => stepsOf c.text.toList) = cs.filter (· ≠ .root) := by
  induction cs with
  | nil => rfl
  | cons c cs ih =>
    rw [List.flatMap_cons, ih fun d hd => h d (List.mem_cons_of_mem _ hd)]
    rcases h c List.mem_cons_self with rfl | hc
    · rw [stepsOf_root]; rfl
    · rw [hc, List.filter_cons_of_pos (by simpa using hc.ne_root)]; rfl

/-- The specifier is a relative path of the steps, where a root among them does not count. -/
theorem ofSteps_spec (k : Nat) {cs : List Component} (h : ∀ c ∈ cs, c = .root ∨ c.IsStep) :
    let text := (ofSteps k (List.replicate k ".." ++ cs.map (·.text))).toList
    (∃ rest, text = '.' :: rest) ∧
      stepsOf text = List.replicate k .parent ++ cs.filter (· ≠ .root) := by
  have hs : stepsOf (List.intercalate ['/']
        ((List.replicate k ".." ++ cs.map (·.text)).map String.toList)) =
      List.replicate k .parent ++ cs.filter (· ≠ .root) := by
    rw [stepsOf_intercalate, List.flatMap_map, List.flatMap_append, List.flatMap_map,
      flatMap_stepsOf_text h, List.flatMap_replicate]
    congr 1
    rw [show stepsOf "..".toList = [.parent] by decide, List.flatten_replicate_singleton]
  unfold ofSteps
  cases k with
  | zero =>
    cases cs with
    | nil => exact ⟨⟨[], rfl⟩, rfl⟩
    | cons c cs =>
      refine ⟨⟨_, by simp; rfl⟩, ?_⟩
      simpa using hs
  | succ k =>
    refine ⟨?_, by simpa using hs⟩
    rw [List.replicate_succ, List.cons_append, List.map_cons]
    cases (List.replicate k ".." ++ cs.map (·.text)).map String.toList with
    | nil => exact ⟨['.'], by simp⟩
    | cons s ss => exact ⟨'.' :: '/' :: List.intercalate ['/'] (s :: ss), by simp⟩

/-! ## From one path to another -/

theorem relative_eq (p q : Path) :
    relative p q =
      let source := normalComponents p.components
      let target := normalComponents q.components
      let common := commonLength source target
      ofSteps (source.length - common) (List.replicate (source.length - common) ".." ++
        (target.drop common).map (·.text)) := by
  rw [relative, components_normalize, components_normalize]

theorem eq_root_or_isStep_of_mem_drop {q : Path} {n : Nat} :
    ∀ c ∈ (normalComponents q.components).drop n, c = .root ∨ c.IsStep :=
  fun _ h => eq_root_or_isStep (List.mem_of_mem_drop h)

theorem relative_text (p q : Path) : ∃ rest, (relative p q).toList = '.' :: rest := by
  rw [relative_eq]
  exact (ofSteps_spec _ eq_root_or_isStep_of_mem_drop).1

theorem not_isAbsolute_of_text {text : String} (h : ∃ rest, text.toList = '.' :: rest) :
    ¬(Path.mk text).isAbsolute := by
  obtain ⟨rest, hr⟩ := h
  simp [isAbsolute, hr]

/-- The specifier leads up over what only the directory has and down over what only the target
has. -/
theorem place_relative (p q : Path) (start : List String) :
    (Path.mk (relative p q)).place start =
      let source := normalComponents p.components
      let target := normalComponents q.components
      let common := commonLength source target
      ((target.drop common).filter (· ≠ .root)).foldl Component.move
        (start.drop (source.length - common)) := by
  rw [place_of_not_isAbsolute (not_isAbsolute_of_text (relative_text p q)), relative_eq,
    (ofSteps_spec _ eq_root_or_isStep_of_mem_drop).2, List.foldl_append,
    foldl_move_replicate_parent]

/-- If the directory adds only names to a start that it shares with the target, the specifier leads
to the target. -/
theorem place_relative_of_names {p q : Path} (pre cs : List Component)
    (hp : normalComponents p.components = pre ++ p.names.map .normal)
    (hq : normalComponents q.components = pre ++ cs) (hroot : .root ∉ cs) (start : List String) :
    (Path.mk (relative p q)).place (p.place start) = q.place start := by
  set n := commonLength (p.names.map Component.normal) cs with hn
  have hle : n ≤ p.names.length := by
    have := commonLength_le (p.names.map Component.normal) cs
    rwa [List.length_map] at this
  have htake : cs.take n = (p.names.take n).map .normal := by
    rw [hn, take_commonLength, List.map_take]
  have hdrop : (cs.drop n).filter (· ≠ .root) = cs.drop n :=
    List.filter_eq_self.2 fun c hc => by
      simpa using fun h : c = .root => hroot (h ▸ List.mem_of_mem_drop hc)
  have hstart : (p.place start).drop (p.names.length - n) =
      (p.names.take n).reverse ++ pre.foldl Component.move start := by
    rw [place_eq_foldl, hp, List.foldl_append, foldl_move_map_normal,
      List.drop_append_of_le_length (by simp), List.reverse_take]
  have hcs (x : List String) : cs.foldl Component.move x =
      (cs.drop n).foldl Component.move ((p.names.take n).reverse ++ x) := by
    rw [← foldl_move_map_normal, ← htake, ← List.foldl_append, List.take_append_drop]
  rw [place_relative, hp, hq]
  simp only [commonLength_append, List.length_append, List.length_map, Nat.add_sub_add_left,
    List.drop_length_add_append, ← hn]
  rw [hdrop, hstart, place_eq_foldl q, hq, List.foldl_append, hcs]

theorem place_relative_of_ups_le {p q : Path} (ha : p.isAbsolute = q.isAbsolute)
    (hu : p.ups ≤ q.ups) (start : List String) :
    (Path.mk (relative p q)).place (p.place start) = q.place start := by
  by_cases hp : p.isAbsolute
  · have hq : q.isAbsolute := ha ▸ hp
    refine place_relative_of_names [.root] (q.names.map .normal) ?_ ?_ (by simp) _
    · exact (normalComponents_of_isAbsolute hp).1
    · exact (normalComponents_of_isAbsolute hq).1
  · have hq : ¬q.isAbsolute := ha ▸ hp
    refine place_relative_of_names (List.replicate p.ups .parent)
      (List.replicate (q.ups - p.ups) .parent ++ q.names.map .normal) ?_ ?_ (by simp) _
    · exact (normalComponents_of_not_isAbsolute hp).1
    · rw [(normalComponents_of_not_isAbsolute hq).1, ← List.append_assoc,
        List.replicate_append_replicate, Nat.add_sub_cancel' hu]

theorem place_relative_of_head?_ne {p q : Path} {cs : List Component} (pre ds : List Component)
    (hp : normalComponents p.components = pre ++ cs)
    (hq : normalComponents q.components = pre ++ ds) (h : ∀ c ∈ cs.head?, c ∉ ds.head?)
    (start : List String) :
    (Path.mk (relative p q)).place start =
      (ds.filter (· ≠ .root)).foldl Component.move (start.drop cs.length) := by
  rw [place_relative, hp, hq]
  simp only [commonLength_append, commonLength_of_head?_ne h, List.length_append, Nat.add_zero,
    Nat.add_sub_cancel_left, List.drop_left]

theorem foldl_move_filter (k : Nat) (ns start : List String) :
    ((List.replicate k Component.parent ++ ns.map Component.normal).filter (· ≠ .root)).foldl
      Component.move start = ns.reverse ++ start.drop k := by
  have hroot : ∀ c ∈ List.replicate k Component.parent ++ ns.map Component.normal, c ≠ .root := by
    intro c hc
    rcases List.mem_append.1 hc with hc | hc
    · rw [List.eq_of_mem_replicate hc]; decide
    · obtain ⟨n, -, rfl⟩ := List.mem_map.1 hc
      simp
  rw [List.filter_eq_self.2 (by simpa using hroot), List.foldl_append, foldl_move_replicate_parent,
    foldl_move_map_normal]

theorem head?_ne_root (k : Nat) (ns : List String) :
    .root ∉ (List.replicate k Component.parent ++ ns.map Component.normal).head? := by
  cases k <;> cases ns <;> simp [List.replicate_succ]

/-- From far below the root, the specifier of a path that starts elsewhere, or that leads up
farther, leads to another depth. -/
theorem place_relative_ne {p q : Path} (h : ¬(p.isAbsolute = q.isAbsolute ∧ p.ups ≤ q.ups))
    {start : List String} (hs : start.length = 2 * p.ups + q.ups + 1) :
    (Path.mk (relative p q)).place (p.place start) ≠ q.place start := by
  intro he
  replace he := congrArg List.length he
  rcases normalComponents_components p with ⟨hp, hpu, hpn⟩ | ⟨hp, hpn⟩ <;>
    rcases normalComponents_components q with ⟨hq, hqu, hqn⟩ | ⟨hq, hqn⟩
  · exact h ⟨by rw [hp, hq], by omega⟩
  · rw [place_relative_of_head?_ne [] (_ ++ _) hpn hqn, foldl_move_filter,
      length_place hq, place_eq, if_pos hp] at he
    · simp at he
      omega
    · rintro c ⟨⟩
      exact head?_ne_root _ _
  · rw [place_relative_of_head?_ne [] _ hpn hqn, List.filter_cons_of_neg (by simp),
      ← List.nil_append (q.names.map Component.normal), ← List.replicate_zero,
      foldl_move_filter, place_eq q, if_pos hq] at he
    · simp [length_place hp] at he
      omega
    · rintro c hc ⟨⟩
      exact head?_ne_root _ _ hc
  · have hu : q.ups < p.ups := by
      by_contra hu
      exact h ⟨by rw [Bool.eq_false_iff.2 hp, Bool.eq_false_iff.2 hq], by omega⟩
    rw [← Nat.add_sub_cancel' (Nat.le_of_lt hu), ← List.replicate_append_replicate, List.append_assoc] at hpn
    rw [place_relative_of_head?_ne _ _ hpn hqn, ← List.nil_append (q.names.map Component.normal),
      ← List.replicate_zero, foldl_move_filter, length_place hq] at he
    · simp [length_place hp] at he
      omega
    · rintro c hc
      rw [← Nat.succ_pred_eq_of_pos (Nat.sub_pos_of_lt hu), List.replicate_succ] at hc
      cases hc
      cases q.names <;> simp

/-- From every working directory, the specifier leads to the same file as the target. -/
theorem relative_resolves_iff {p q : Path} :
    (∀ cwd : Path, cwd.isAbsolute →
        ((cwd.join p).join ⟨relative p q⟩).normalize = (cwd.join q).normalize) ↔
      p.isAbsolute = q.isAbsolute ∧ p.ups ≤ q.ups := by
  have hiff {cwd : Path} (h : cwd.isAbsolute) :
      ((cwd.join p).join ⟨relative p q⟩).normalize = (cwd.join q).normalize ↔
        (Path.mk (relative p q)).place (p.place (cwd.place [])) = q.place (cwd.place []) := by
    rw [normalize_eq_iff (by simp [h]) (by simp [h]), place_join, place_join, place_join]
  constructor
  · intro h
    by_contra hn
    have hdeep := isAbsolute_deep (2 * p.ups + q.ups + 1)
    exact place_relative_ne hn (length_place_deep _) ((hiff hdeep).1 (h _ hdeep))
  · intro h cwd hcwd
    exact (hiff hcwd).2 (place_relative_of_ups_le h.1 h.2 _)

/-! ## Rebased specifiers -/

theorem not_isAbsolute_of_isRelative {spec : String} (h : isRelative spec) :
    ¬(Path.mk spec).isAbsolute := by
  refine not_isAbsolute_of_text ?_
  unfold isRelative at h
  cases hs : spec.toList with
  | nil => simp [hs] at h
  | cons c cs =>
    obtain rfl : c = '.' := by
      simp [hs] at h
      tauto
    exact ⟨cs, rfl⟩

theorem relative_normalize (p q : Path) : relative p q.normalize = relative p q := by
  rw [relative, normalize_normalize, ← relative]

/-- The slash at the end of a rebased specifier changes nothing about where it leads. -/
theorem place_rebase {spec : String} (h : isRelative spec) (sourceDir entryDir : Path)
    (start : List String) :
    (Path.mk (rebase spec sourceDir entryDir)).place start =
      (Path.mk (relative entryDir (sourceDir.join ⟨spec⟩))).place start := by
  unfold rebase
  rw [if_pos h, relative_normalize, div_eq_join]
  dsimp only
  split
  · obtain ⟨rest, hr⟩ := relative_text entryDir (sourceDir.join ⟨spec⟩)
    have hslash : (relative entryDir (sourceDir.join ⟨spec⟩) ++ "/").toList = '.' :: (rest ++ ['/']) := by
      simp [hr]
    rw [place_of_not_isAbsolute (not_isAbsolute_of_text ⟨_, hslash⟩),
      place_of_not_isAbsolute (not_isAbsolute_of_text ⟨rest, hr⟩), hslash, hr, ← List.cons_append,
      stepsOf_concat_slash]
  · rfl

/-- From every working directory, the rebased specifier means for the entry what the specifier means
for the source. -/
theorem rebase_resolves_iff {spec : String} (h : isRelative spec) {sourceDir entryDir : Path} :
    (∀ cwd : Path, cwd.isAbsolute →
        ((cwd.join entryDir).join ⟨rebase spec sourceDir entryDir⟩).normalize =
          ((cwd.join sourceDir).join ⟨spec⟩).normalize) ↔
      entryDir.isAbsolute = sourceDir.isAbsolute ∧
        entryDir.ups ≤ (sourceDir.join ⟨spec⟩).ups := by
  have ha : (sourceDir.join ⟨spec⟩).isAbsolute = sourceDir.isAbsolute := by
    rw [isAbsolute_join, Bool.eq_false_iff.2 (not_isAbsolute_of_isRelative h), Bool.or_false]
  rw [← ha, ← relative_resolves_iff]
  refine forall₂_congr fun cwd hcwd => ?_
  rw [normalize_eq_iff (by simp [hcwd]) (by simp [hcwd]),
    normalize_eq_iff (by simp [hcwd]) (by simp [hcwd])]
  simp only [place_join, place_rebase h]

/-! ## Between absolute paths -/

/-- The specifier that leads from one absolute path to another one does so where it stands. -/
theorem normalize_join_relative {p q : Path} (hp : p.isAbsolute) (hq : q.isAbsolute) :
    (p.join ⟨relative p q⟩).normalize = q.normalize := by
  have hups : p.ups ≤ q.ups := by rw [ups_of_isAbsolute hp]; exact Nat.zero_le _
  rw [normalize_eq_iff (by simp [hp]) hq, place_join]
  exact place_relative_of_ups_le (hp.trans hq.symm) hups []

/-- From one directory, targets have the same specifier exactly if they have the same normal form. -/
theorem relative_inj {p q r : Path} (hp : p.isAbsolute) (hq : q.isAbsolute) (hr : r.isAbsolute) :
    relative p q = relative p r ↔ q.normalize = r.normalize := by
  constructor
  · intro h
    rw [← normalize_join_relative hp hq, h, normalize_join_relative hp hr]
  · intro h
    rw [← relative_normalize p q, h, relative_normalize]

/-! ## The characters of a specifier -/

/-- A character that a path is printed with. -/
def IsStructural (a : Char) : Prop :=
  a = '.' ∨ a = '/'

theorem mem_ofSteps {k : Nat} {steps : List String} {a : Char}
    (ha : a ∈ (ofSteps k steps).toList) : IsStructural a ∨ ∃ s ∈ steps, a ∈ s.toList := by
  have hpath (ha : a ∈ (String.ofList (List.intercalate ['/'] (steps.map String.toList))).toList) :
      IsStructural a ∨ ∃ s ∈ steps, a ∈ s.toList := by
    rw [String.toList_ofList] at ha
    rcases mem_of_mem_intercalate ha with h | ⟨s, hs, ha⟩
    · exact .inl (.inr h)
    · obtain ⟨t, ht, rfl⟩ := List.mem_map.1 hs
      exact .inr ⟨t, ht, ha⟩
  unfold ofSteps at ha
  dsimp only at ha
  split at ha
  · exact .inl (.inl (by simpa using ha))
  · split at ha
    · rw [String.toList_append, List.mem_append] at ha
      rcases ha with ha | ha
      · exact .inl (by simpa [IsStructural] using ha)
      · exact hpath ha
    · exact hpath ha

theorem mem_relative {p q : Path} {a : Char} (ha : a ∈ (relative p q).toList) :
    IsStructural a ∨ a ∈ q.text.toList := by
  rw [relative_eq] at ha
  rcases mem_ofSteps ha with h | ⟨s, hs, ha⟩
  · exact .inl h
  · rcases List.mem_append.1 hs with hs | hs
    · obtain rfl := List.eq_of_mem_replicate hs
      exact .inl (.inl (by simpa using ha))
    · obtain ⟨c, hc, rfl⟩ := List.mem_map.1 hs
      have hmem := List.mem_reverse.1 (List.mem_of_mem_drop hc)
      rcases mem_of_mem_foldl_normalStep hmem with h | h
      · cases h
      · exact .inr (mem_text_of_mem_components h ha)

/-- A rebased specifier has no other characters than a path has, the specifier and the directory of
the source. -/
theorem mem_rebase {spec : String} {sourceDir entryDir : Path} {a : Char}
    (ha : a ∈ (rebase spec sourceDir entryDir).toList) :
    IsStructural a ∨ a ∈ spec.toList ∨ a ∈ sourceDir.text.toList := by
  unfold rebase at ha
  rw [relative_normalize, div_eq_join] at ha
  have hrelative (ha : a ∈ (relative entryDir (sourceDir.join ⟨spec⟩)).toList) :
      IsStructural a ∨ a ∈ spec.toList ∨ a ∈ sourceDir.text.toList := by
    rcases mem_relative ha with h | h
    · exact .inl h
    · rcases mem_text_join h with h | h | h
      · exact .inr (.inr h)
      · exact .inr (.inl h)
      · exact .inl (.inr h)
  split at ha
  · dsimp only at ha
    split at ha
    · rw [String.toList_append, List.mem_append] at ha
      rcases ha with ha | ha
      · exact hrelative ha
      · exact .inl (.inr (by simpa using ha))
    · exact hrelative ha
  · exact .inr (.inl ha)

end Specifier

end JobBundler
