import JobBundler.Proofs.Path.Extension

/-!
# File names in the text of a path

A path with a file name is a text before the name, the name, and a rest that does not count
(`exists_text_of_fileName?`). Another extension keeps what is before the name and drops the rest
(`withExtension_of_text`).
-/

namespace JobBundler.Path

variable {p q : Path} {name : String} {pre trail : List Char}

/-! ## Segments -/

/-- The first segment is the text up to the first separator. -/
theorem exists_of_segments_eq_cons {cs s : List Char} {ss : List (List Char)} (h : segments cs = s :: ss) :
    (ss = [] ∧ cs = s) ∨ ∃ rest, cs = s ++ '/' :: rest ∧ segments rest = ss := by
  induction cs generalizing s with
  | nil =>
    cases h
    exact .inl ⟨rfl, rfl⟩
  | cons c cs ih =>
    by_cases hc : c = '/'
    · subst hc
      rw [segments, if_pos rfl] at h
      cases h
      exact .inr ⟨cs, rfl, rfl⟩
    · obtain ⟨t, ts, ht⟩ := List.exists_cons_of_ne_nil (segments_ne_nil cs)
      rw [segments_cons_of_ne hc ht] at h
      cases h
      rcases ih ht with ⟨rfl, rfl⟩ | ⟨rest, rfl, hrest⟩
      · exact .inl ⟨rfl, rfl⟩
      · exact .inr ⟨rest, rfl, hrest⟩

/-- A segment stands between separators. -/
theorem exists_of_segments_eq_append {cs s : List Char} {ss ts : List (List Char)}
    (h : segments cs = ss ++ s :: ts) : ∃ pre trail, cs = pre ++ s ++ trail ∧ EndsInSlash pre ∧
      ((ts = [] ∧ trail = []) ∨ ∃ rest, trail = '/' :: rest ∧ segments rest = ts) := by
  induction ss generalizing cs with
  | nil =>
    rcases exists_of_segments_eq_cons h with ⟨hts, rfl⟩ | ⟨rest, rfl, hrest⟩
    · exact ⟨[], [], (List.append_nil _).symm, .inl rfl, .inl ⟨hts, rfl⟩⟩
    · exact ⟨[], _, rfl, .inl rfl, .inr ⟨rest, rfl, hrest⟩⟩
  | cons t ss ih =>
    rcases exists_of_segments_eq_cons h with ⟨hnil, -⟩ | ⟨rest, rfl, hrest⟩
    · simp at hnil
    · obtain ⟨pre, trail, rfl, hpre, htrail⟩ := ih hrest
      refine ⟨t ++ '/' :: pre, trail, by simp, .inr ?_, htrail⟩
      rcases hpre with rfl | ⟨as, rfl⟩
      · exact ⟨t, rfl⟩
      · exact ⟨t ++ '/' :: as, by simp⟩

/-- Nothing, or a separator and segments that do not count. -/
def IsTrail (trail : List Char) : Prop :=
  trail = [] ∨ ∃ rest, trail = '/' :: rest ∧ ∀ s ∈ segments rest, isSkipped s = true

theorem stepsOf_eq_nil {cs : List Char} (h : ∀ s ∈ segments cs, isSkipped s = true) : stepsOf cs = [] := by
  rw [stepsOf, List.filterMap_eq_nil_iff]
  intro s hs
  rw [componentOf?, if_pos (h s hs)]

theorem componentOf?_eq_some (h : (Component.normal name).IsStep) :
    componentOf? name.toList = some (.normal name) := by
  have hslash : '/' ∉ name.toList := h.slash_notMem
  rw [Component.IsStep, Component.text, stepsOf, segments_of_notMem hslash] at h
  cases hc : componentOf? name.toList with
  | none => simp [hc] at h
  | some c => simpa [hc] using h

theorem isSkipped_eq_false (h : (Component.normal name).IsStep) : isSkipped name.toList = false := by
  by_contra hskip
  have hc := componentOf?_eq_some h
  rw [componentOf?, if_pos (by simpa using hskip)] at hc
  cases hc

/-! ## The text of a path with a file name -/

/-- The last step of a path with a file name is that name. -/
theorem exists_stepsOf_of_fileName? (h : p.fileName? = some name) :
    ∃ cs, stepsOf p.text.toList = cs ++ [.normal name] := by
  unfold fileName? at h
  rw [components_eq] at h
  split at h
  · rename_i n hn
    cases h
    rcases List.eq_nil_or_concat' (stepsOf p.text.toList) with hnil | ⟨cs, c, hc⟩
    · rw [hnil, List.append_nil] at hn
      rcases p.isAbsolute.eq_false_or_eq_true with ha | ha
      · rw [lead_of_isAbsolute ha] at hn
        cases hn
      · rcases lead_of_not_isAbsolute (p := p) (by simp [ha]) with hl | hl <;> rw [hl] at hn <;> cases hn
    · rw [hc, ← List.append_assoc, List.getLast?_concat] at hn
      exact ⟨cs, by rw [hc, Option.some.inj hn]⟩
  · cases h

/-- The last segment that counts, if it is a name, is the file name. -/
theorem fileName?_of_segments {front back : List (List Char)} {s : List Char}
    (hsegments : segments p.text.toList = front ++ s :: back) (hs : componentOf? s = some (.normal name))
    (hback : ∀ t ∈ back, isSkipped t = true) : p.fileName? = some name := by
  have hnone : back.filterMap componentOf? = [] :=
    List.filterMap_eq_nil_iff.2 fun t ht => by rw [componentOf?, if_pos (hback t ht)]
  rw [fileName?, components_eq, stepsOf, hsegments, List.filterMap_append, List.filterMap_cons_some hs, hnone,
    ← List.append_assoc, List.getLast?_concat]

/-- A path with a file name consists of what is before the name, the name, and a rest that does not count. -/
theorem exists_text_of_fileName? (h : p.fileName? = some name) :
    ∃ pre trail, p.text.toList = pre ++ name.toList ++ trail ∧ EndsInSlash pre ∧ IsTrail trail ∧
      (Component.normal name).IsStep := by
  obtain ⟨cs, hcs⟩ := exists_stepsOf_of_fileName? h
  have hmem : Component.normal name ∈ stepsOf p.text.toList := by simp [hcs]
  have hstep : (Component.normal name).IsStep := isStep_of_mem_stepsOf hmem
  obtain ⟨before, after, hsegments, -, hafter⟩ := List.filterMap_eq_append_iff.1 hcs
  obtain ⟨skipped, s, rest, rfl, -, hs, hrest⟩ := List.filterMap_eq_cons_iff.1 hafter
  obtain rfl : s = name.toList := (text_of_componentOf? hs).symm
  rw [← List.append_assoc] at hsegments
  obtain ⟨pre, trail, htext, hpre, htrail⟩ := exists_of_segments_eq_append hsegments
  refine ⟨pre, trail, htext, hpre, ?_, hstep⟩
  rcases htrail with ⟨-, rfl⟩ | ⟨cs', rfl, hcs'⟩
  · exact .inl rfl
  · refine .inr ⟨cs', rfl, fun t ht => ?_⟩
    have hnone := List.filterMap_eq_nil_iff.1 hrest t (hcs' ▸ ht)
    by_contra hskip
    rw [componentOf?, if_neg hskip] at hnone
    split at hnone <;> cases hnone

/-- A separator after the start of a path begins segments that stand for themselves. -/
theorem parts_of_append_slash {rest : List Char} (hq : q.text.toList = p.text.toList ++ '/' :: rest)
    (hne : p.text.toList ≠ []) (hdot : p.text.toList ≠ ['.']) :
    q.parts = ⟨p.parts.lead, p.parts.segments ++ segments rest⟩ := by
  have hlead := lead_eq_of_append hne hq (.inr rfl)
  have hsegments : q.parts.segments = p.parts.segments ++ segments rest := by
    unfold parts
    rw [hq]
    match hp : p.text.toList with
    | [] => exact absurd hp hne
    | [a] =>
      have ha : a ≠ '.' := fun h => hdot (h ▸ hp)
      by_cases hs : a = '/'
      · subst hs
        rfl
      · simp [ha, hs, ← segments_append_slash]
    | a :: b :: cs =>
      by_cases hs : a = '/'
      · subst hs
        exact segments_append_slash (b :: cs) rest
      · by_cases hd : a = '.' ∧ b = '/'
        · obtain ⟨rfl, rfl⟩ := hd
          exact congrArg ([] :: ·) (segments_append_slash cs rest)
        · simp only [List.cons_append]
          split <;> split <;> simp_all [← segments_append_slash]
  calc
    q.parts = ⟨q.parts.lead, q.parts.segments⟩ := rfl
    _ = _ := by rw [hlead, hsegments]

theorem trimSegments_append_of_skipped {ss ts : List (List Char)} (h : ∀ t ∈ ts, isSkipped t = true) :
    trimSegments (ss ++ ts) = trimSegments ss := by
  have hreverse : ∀ t ∈ ts.reverse, isSkipped t = true := fun t ht => h t (List.mem_reverse.1 ht)
  rw [trimSegments, trimSegments, List.reverse_append, List.dropWhile_append_of_pos hreverse]

section
variable (hq : q.text.toList = pre ++ name.toList ++ trail) (hp : EndsInSlash pre) (ht : IsTrail trail)
  (hn : (Component.normal name).IsStep)

include hp ht hn

theorem stepsOf_of_text : stepsOf (pre ++ name.toList ++ trail) = stepsOf pre ++ [.normal name] := by
  have hfront : stepsOf (pre ++ name.toList) = stepsOf pre ++ [.normal name] := by
    have hname : stepsOf name.toList = [.normal name] := hn
    rcases hp with rfl | ⟨as, rfl⟩
    · exact hname
    · rw [List.append_assoc, List.singleton_append, stepsOf_append_slash, stepsOf_concat_slash, hname]
  rcases ht with rfl | ⟨rest, rfl, hrest⟩
  · rw [List.append_nil, hfront]
  · rw [stepsOf_append_slash, hfront, stepsOf_eq_nil hrest, List.append_nil]

include hq

theorem fileName?_of_text : q.fileName? = some name := by
  rw [fileName?, components_eq, hq, stepsOf_of_text hp ht hn, ← List.append_assoc, List.getLast?_concat]

/-- The last segment that counts is the name. -/
theorem exists_trimSegments_of_text : ∃ init, trimSegments q.parts.segments = init ++ [name.toList] ∧
    ∀ x, ofParts q.parts.lead (init ++ [x]) = ⟨String.ofList (pre ++ x)⟩ := by
  have hskip := isSkipped_eq_false hn
  rcases ht with rfl | ⟨rest, rfl, hrest⟩
  · rw [List.append_nil] at hq
    obtain ⟨init, hsegments, hparts⟩ := exists_parts_append hq hp hn
    exact ⟨init, by rw [hsegments, trimSegments_concat hskip], hparts⟩
  · let front : Path := ⟨String.ofList (pre ++ name.toList)⟩
    have hfront : front.text.toList = pre ++ name.toList := String.toList_ofList
    obtain ⟨init, hsegments, hparts⟩ := exists_parts_append hfront hp hn
    have hnil : front.text.toList ≠ [] := by
      rw [hfront]
      intro h
      rw [(List.append_eq_nil_iff.1 h).2] at hskip
      cases hskip
    have hdot : front.text.toList ≠ ['.'] := by
      rw [hfront]
      intro h
      rcases List.append_eq_singleton_iff.1 h with ⟨-, h⟩ | ⟨-, h⟩ <;> rw [h] at hskip <;> cases hskip
    have hq' : q.parts = ⟨front.parts.lead, front.parts.segments ++ segments rest⟩ :=
      parts_of_append_slash (by rw [hq, hfront]) hnil hdot
    refine ⟨init, ?_, ?_⟩
    · rw [hq', trimSegments_append_of_skipped hrest, hsegments, trimSegments_concat hskip]
    · rw [hq']
      exact hparts

/-- A new extension comes after the stem, and nothing after it. -/
theorem setExtension_of_text {extension : String} (he : extension ≠ "") :
    q.setExtension extension =
      ⟨String.ofList (pre ++ ((splitExtension name).1 ++ "." ++ extension).toList)⟩ := by
  obtain ⟨init, hsegments, hparts⟩ := exists_trimSegments_of_text hq hp ht hn
  rw [setExtension, fileName?_of_text hq hp ht hn, hsegments, List.reverse_concat]
  simp only [List.reverse_reverse, hparts]
  rw [if_neg (by simpa using he)]

end

/-! ## Stems and extensions -/

/-- A name is cut at its last dot, unless nothing is before that. -/
theorem splitExtension_of_toList {name : String} {stem old : List Char}
    (hname : name.toList = stem ++ '.' :: old) (hold : '.' ∉ old) :
    splitExtension name =
      if stem.isEmpty then (name, none) else (String.ofList stem, some (String.ofList old)) := by
  have htake : (name.toList.reverse.takeWhile (· ≠ '.')).reverse = old := by
    have hall : ∀ a ∈ old.reverse, decide (a ≠ '.') = true := by
      intro a ha
      exact decide_eq_true fun h => hold (h ▸ List.mem_reverse.1 ha)
    rw [hname, List.reverse_append, List.reverse_cons, List.append_assoc,
      List.takeWhile_append_of_pos hall]
    simp
  have hstem : name.toList.take (name.toList.length - old.length - 1) = stem := by
    have hlen : name.toList.length - old.length - 1 = stem.length := by
      rw [hname, List.length_append, List.length_cons]
      omega
    rw [hlen, hname, List.take_left]
  unfold splitExtension
  simp only [htake, hstem]

theorem splitExtension_append {stem old : String} (hstem : stem ≠ "") (hold : '.' ∉ old.toList) :
    splitExtension (stem ++ "." ++ old) = (stem, some old) := by
  have hname : (stem ++ "." ++ old).toList = stem.toList ++ '.' :: old.toList := by simp
  rw [splitExtension_of_toList hname hold, if_neg (by simpa using hstem), String.ofList_toList,
    String.ofList_toList]

theorem splitExtension_eq (name : String) : splitExtension name = (name, none) ∨
    ∃ stem old, stem ≠ "" ∧ '.' ∉ old.toList ∧ name = stem ++ "." ++ old ∧
      splitExtension name = (stem, some old) := by
  by_cases hdot : '.' ∈ name.toList
  · obtain ⟨front, back, hreverse, hold⟩ := List.eq_append_cons_of_mem (List.mem_reverse.2 hdot)
    have hname : name.toList = back.reverse ++ '.' :: front.reverse := by
      rw [← List.reverse_reverse name.toList, hreverse]
      simp
    have hsplit := splitExtension_of_toList hname (by simpa using hold)
    by_cases hback : back.reverse.isEmpty
    · rw [if_pos hback] at hsplit
      exact .inl hsplit
    · rw [if_neg hback] at hsplit
      refine .inr ⟨_, _, ?_, ?_, ?_, hsplit⟩
      · rw [← String.toList_inj.ne, String.toList_ofList]
        simpa using hback
      · rw [String.toList_ofList]
        simpa using hold
      · rw [← String.toList_inj, hname]
        simp
  · have hall : ∀ a ∈ name.toList.reverse, decide (a ≠ '.') = true := by
      intro a ha
      exact decide_eq_true fun h => hdot (h ▸ List.mem_reverse.1 ha)
    have htake : (name.toList.reverse.takeWhile (· ≠ '.')).reverse = name.toList := by
      rw [← List.append_nil name.toList.reverse, List.takeWhile_append_of_pos hall]
      simp
    left
    unfold splitExtension
    simp only [htake]
    rw [Nat.sub_self, Nat.zero_sub, List.take_zero]
    rfl

theorem stem_prefix (name : String) : (splitExtension name).1.toList <+: name.toList := by
  rcases splitExtension_eq name with h | ⟨stem, old, -, -, rfl, h⟩
  · exact ⟨[], by rw [List.append_nil, h]⟩
  · rw [h, String.append_assoc, String.toList_append]
    exact List.prefix_append _ _

/-- A name changes when its extension is replaced by one with a dot in it. -/
theorem ne_stem_append {extension : String} (h : '.' ∈ extension.toList) (name : String) :
    name ≠ (splitExtension name).1 ++ "." ++ extension := by
  intro heq
  rcases splitExtension_eq name with hsplit | ⟨stem, old, -, hold, rfl, hsplit⟩ <;> rw [hsplit] at heq
  · have hlength := congrArg (·.toList.length) heq
    simp only [String.toList_append, List.length_append] at hlength
    have hdot : ".".toList.length = 1 := rfl
    omega
  · rw [String.append_right_inj] at heq
    exact hold (heq ▸ h)

/-! ## Another extension -/

theorem isStep_of_ne {n : String} (hs : '/' ∉ n.toList) (hskip : isSkipped n.toList = false)
    (hdots : n.toList ≠ ['.', '.']) : (Component.normal n).IsStep := by
  have hc : componentOf? n.toList = some (.normal n) := by
    rw [componentOf?, if_neg (by simp [hskip]), if_neg hdots, String.ofList_toList]
  rw [Component.IsStep, Component.text, stepsOf, segments_of_notMem hs]
  simp [hc]

/-- The segments of the start of a text are starts of its segments. -/
theorem segments_take {cs s t : List Char} {ss ts : List (List Char)} {n : Nat}
    (h : segments cs = s :: ss) (ht : segments (cs.take n) = t :: ts) :
    t <+: s ∧ ∀ u ∈ ts, ∃ v ∈ ss, u <+: v := by
  induction cs generalizing s t ss ts n with
  | nil =>
    rw [List.take_nil] at ht
    cases h
    cases ht
    exact ⟨List.prefix_rfl, nofun⟩
  | cons c cs ih =>
    cases n with
    | zero =>
      cases ht
      exact ⟨List.nil_prefix, nofun⟩
    | succ n =>
      obtain ⟨s', ss', hs'⟩ := List.exists_cons_of_ne_nil (segments_ne_nil cs)
      obtain ⟨t', ts', ht'⟩ := List.exists_cons_of_ne_nil (segments_ne_nil (cs.take n))
      obtain ⟨hfirst, hrest⟩ := ih hs' ht'
      rw [List.take_succ_cons] at ht
      by_cases hc : c = '/'
      · subst hc
        rw [segments, if_pos rfl, hs'] at h
        rw [segments, if_pos rfl, ht'] at ht
        cases h
        cases ht
        refine ⟨List.prefix_rfl, fun u hu => ?_⟩
        rcases List.mem_cons.1 hu with rfl | hu
        · exact ⟨s', List.mem_cons_self, hfirst⟩
        · obtain ⟨v, hv, hprefix⟩ := hrest u hu
          exact ⟨v, List.mem_cons_of_mem _ hv, hprefix⟩
      · rw [segments_cons_of_ne hc hs'] at h
        rw [segments_cons_of_ne hc ht'] at ht
        cases h
        cases ht
        exact ⟨List.cons_prefix_cons.2 ⟨rfl, hfirst⟩, hrest⟩

theorem isSkipped_of_prefix {s t : List Char} (h : isSkipped s = true) (ht : t <+: s) :
    isSkipped t = true := by
  rw [isSkipped, Bool.or_eq_true, List.isEmpty_iff, beq_iff_eq] at h ⊢
  rcases h with rfl | rfl
  · exact .inl (List.prefix_nil.1 ht)
  · rcases t with _ | ⟨c, t⟩
    · exact .inl rfl
    · obtain ⟨rfl, hnil⟩ := List.cons_prefix_cons.1 ht
      exact .inr (congrArg ('.' :: ·) (List.prefix_nil.1 hnil))

theorem IsTrail.take (ht : IsTrail trail) (n : Nat) : IsTrail (trail.take n) := by
  rcases ht with rfl | ⟨rest, rfl, hrest⟩
  · exact .inl List.take_nil
  · cases n with
    | zero => exact .inl rfl
    | succ n =>
      obtain ⟨s, ss, hs⟩ := List.exists_cons_of_ne_nil (segments_ne_nil rest)
      obtain ⟨t, ts, ht⟩ := List.exists_cons_of_ne_nil (segments_ne_nil (rest.take n))
      obtain ⟨hfirst, hothers⟩ := segments_take hs ht
      refine .inr ⟨rest.take n, rfl, fun u hu => ?_⟩
      rw [ht] at hu
      rw [hs] at hrest
      rcases List.mem_cons.1 hu with rfl | hu
      · exact isSkipped_of_prefix (hrest s List.mem_cons_self) hfirst
      · obtain ⟨v, hv, hprefix⟩ := hothers u hu
        exact isSkipped_of_prefix (hrest v (List.mem_cons_of_mem _ hv)) hprefix

/-- A path that ends in two dots has no file name, and so no extension is set. -/
theorem setExtension_of_dots {extension : String} (hq : q.text.toList = pre ++ ['.', '.'])
    (hp : EndsInSlash pre) : q.setExtension extension = q := by
  have hsteps : stepsOf (pre ++ ['.', '.']) = stepsOf pre ++ [.parent] := by
    have hdots : stepsOf ['.', '.'] = [.parent] := by decide
    rcases hp with rfl | ⟨as, rfl⟩
    · exact hdots
    · rw [List.append_assoc, List.singleton_append, stepsOf_append_slash, stepsOf_concat_slash, hdots]
  have hfile : q.fileName? = none := by
    rw [fileName?, components_eq, hq, hsteps, ← List.append_assoc, List.getLast?_concat]
  rw [setExtension, hfile]

/-- Where no more is cut off than the trail, the text before it stays. -/
theorem take_of_le_trail {front : List Char} {n : Nat} (h : n ≤ trail.length) :
    (front ++ trail).take ((front ++ trail).length - n) = front ++ trail.take (trail.length - n) := by
  rw [List.length_append, Nat.add_sub_assoc h, List.take_length_add_append]

/-- Where as much is cut off as `old` has, behind which the trail stands, a part of `old` is left. -/
theorem take_of_trail_le {front old : List Char} (h : trail.length ≤ old.length) :
    (front ++ (old ++ trail)).take ((front ++ (old ++ trail)).length - old.length) =
      front ++ old.take trail.length := by
  have hsum : (front ++ (old ++ trail)).length - old.length = front.length + trail.length := by
    simp only [List.length_append]
    omega
  rw [hsum, List.take_length_add_append, List.take_append_of_le_length h]

/-- A name with a part of its extension is a name, unless it is two dots. -/
theorem isStep_of_take {stem old : String} (hstem : stem ≠ "") (hslash : '/' ∉ (stem ++ "." ++ old).toList)
    (n : Nat) (hdots : (stem ++ "." ++ String.ofList (old.toList.take n)).toList ≠ ['.', '.']) :
    (Component.normal (stem ++ "." ++ String.ofList (old.toList.take n))).IsStep := by
  refine isStep_of_ne ?_ ?_ hdots
  · simp only [String.toList_append, String.toList_ofList, List.mem_append, not_or] at hslash ⊢
    exact ⟨hslash.1, fun h => hslash.2 (List.mem_of_mem_take h)⟩
  · obtain ⟨c, cs, hc⟩ := List.exists_cons_of_ne_nil (l := stem.toList) (by simpa using hstem)
    rw [String.toList_append, String.toList_append, hc]
    simp [isSkipped]

/-- The old extension goes with what is behind it, and the new one comes after what is left of the name, unless
that is no name any more. -/
theorem withExtension_of_text (extension : String) (he : extension ≠ "")
    (hq : q.text.toList = pre ++ name.toList ++ trail) (hp : EndsInSlash pre) (ht : IsTrail trail)
    (hn : (Component.normal name).IsStep) :
    q.withExtension extension =
        ⟨String.ofList (pre ++ ((splitExtension name).1 ++ "." ++ extension).toList)⟩ ∨
      q.withExtension extension = ⟨String.ofList (pre ++ ['.', '.'])⟩ := by
  have hfile : q.fileName? = some name := fileName?_of_text hq hp ht hn
  unfold withExtension extension?
  rw [hfile]
  rcases splitExtension_eq name with hsplit | ⟨stem, old, hstem, hold, rfl, hsplit⟩
  · simp only [Option.bind_some, hsplit]
    left
    rw [setExtension_of_text hq hp ht hn he, hsplit]
  · simp only [Option.bind_some, hsplit]
    rw [← String.length_toList]
    by_cases hcut : old.toList.length ≤ trail.length
    · -- The name is left as it is.
      have hset := setExtension_of_text (q := ⟨String.ofList (pre ++ (stem ++ "." ++ old).toList ++
        trail.take (trail.length - old.toList.length))⟩) String.toList_ofList hp (ht.take _) hn he
      left
      rw [hq, take_of_le_trail hcut, hset, hsplit]
    · -- Only a part of the old extension is left.
      let rest := String.ofList (old.toList.take trail.length)
      have htext : q.text.toList = (pre ++ stem.toList ++ ['.']) ++ (old.toList ++ trail) := by
        rw [hq]
        simp
      have hleft : (pre ++ stem.toList ++ ['.']) ++ old.toList.take trail.length =
          pre ++ (stem ++ "." ++ rest).toList := by
        simp [rest]
      rw [htext, take_of_trail_le (Nat.le_of_not_le hcut), hleft]
      by_cases hdots : (stem ++ "." ++ rest).toList = ['.', '.']
      · right
        rw [hdots]
        exact setExtension_of_dots String.toList_ofList hp
      · left
        have hstep : (Component.normal (stem ++ "." ++ rest)).IsStep :=
          isStep_of_take hstem hn.slash_notMem _ hdots
        have hrest : '.' ∉ rest.toList := by
          rw [String.toList_ofList]
          exact fun h => hold (List.mem_of_mem_take h)
        have hset := setExtension_of_text (q := ⟨String.ofList (pre ++ (stem ++ "." ++ rest).toList)⟩)
          (by rw [String.toList_ofList, List.append_nil]) hp (.inl rfl) hstep he
        rw [hset, splitExtension_append hstem hrest]

/-! ## No extension -/

theorem stem_ne_nil (hn : (Component.normal name).IsStep) : (splitExtension name).1.toList ≠ [] := by
  rcases splitExtension_eq name with h | ⟨stem, old, hstem, -, -, h⟩ <;> rw [h]
  · intro hnil
    have hskip := isSkipped_eq_false hn
    rw [hnil] at hskip
    cases hskip
  · simpa using hstem

/-- Without an extension after it, a path is a start of its text, and not the empty one. -/
theorem setExtension_empty (p : Path) : (p.setExtension "").text.toList <+: p.text.toList ∧
    (p.text.toList ≠ [] → (p.setExtension "").text.toList ≠ []) := by
  cases hfile : p.fileName? with
  | none =>
    have hsame : p.setExtension "" = p := by rw [setExtension, hfile]
    rw [hsame]
    exact ⟨List.prefix_rfl, id⟩
  | some name =>
    obtain ⟨pre, trail, htext, hpre, htrail, hname⟩ := exists_text_of_fileName? hfile
    obtain ⟨init, hsegments, hparts⟩ := exists_trimSegments_of_text htext hpre htrail hname
    have hset : (p.setExtension "").text.toList = pre ++ (splitExtension name).1.toList := by
      rw [setExtension, hfile, hsegments, List.reverse_concat]
      simp [hparts]
    have hstem := stem_prefix name
    rw [hset, htext]
    refine ⟨((List.prefix_append_right_inj pre).2 hstem).trans (List.prefix_append _ _),
      fun _ h => stem_ne_nil hname (List.append_eq_nil_iff.1 h).2⟩

theorem withExtension_empty (p : Path) : (p.withExtension "").text.toList <+: p.text.toList ∧
    (p.text.toList ≠ [] → (p.withExtension "").text.toList ≠ []) := by
  unfold withExtension
  cases hext : p.extension? with
  | none => exact p.setExtension_empty
  | some old =>
    obtain ⟨name, hfile, hsplit⟩ := Option.bind_eq_some_iff.1 hext
    obtain ⟨pre, trail, htext, -⟩ := exists_text_of_fileName? hfile
    have hlength : old.length < p.text.toList.length := by
      rcases splitExtension_eq name with h | ⟨stem, old', -, -, heq, h⟩
      · rw [h] at hsplit
        cases hsplit
      · rw [h] at hsplit
        obtain rfl : old' = old := Option.some.inj hsplit
        rw [htext, heq, ← String.length_toList]
        simp only [String.toList_append, List.length_append]
        have hdot : ".".toList.length = 1 := rfl
        omega
    have hcut := setExtension_empty
      ⟨String.ofList (p.text.toList.take (p.text.toList.length - old.length))⟩
    simp only [String.toList_ofList] at hcut
    refine ⟨hcut.1.trans (List.take_prefix _ _), fun hne => hcut.2 fun hnil => ?_⟩
    rcases List.take_eq_nil_iff.1 hnil with h | h
    · omega
    · exact hne h

end JobBundler.Path
