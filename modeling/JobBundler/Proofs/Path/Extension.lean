import JobBundler.Proofs.Path.Components

/-!
# Extensions of joined paths

A change of the extension of a path that ends in a name changes this name (`setExtension_div`): the
text before it is put together again from the segments that it was cut into.
-/

namespace JobBundler.Path

theorem intercalate_concat (ss : List (List Char)) (hs : ss ≠ []) (x : List Char) :
    List.intercalate ['/'] (ss ++ [x]) = List.intercalate ['/'] ss ++ '/' :: x := by
  induction ss with
  | nil => exact absurd rfl hs
  | cons s ss ih =>
    cases ss with
    | nil => simp
    | cons t ts =>
      rw [List.cons_append, List.cons_append, List.intercalate_cons_cons, ← List.cons_append,
        ih (by simp), List.intercalate_cons_cons]
      simp

theorem intercalate_segments (cs : List Char) : List.intercalate ['/'] (segments cs) = cs := by
  induction cs with
  | nil => rfl
  | cons c cs ih =>
    obtain ⟨s, ss, hs⟩ := List.exists_cons_of_ne_nil (segments_ne_nil cs)
    by_cases hc : c = '/'
    · subst hc
      rw [segments, if_pos rfl, hs, List.intercalate_cons_cons, ← hs, ih]
      rfl
    · rw [segments_cons_of_ne hc hs]
      rw [hs] at ih
      cases ss with
      | nil => simpa using ih
      | cons t ts =>
        rw [List.intercalate_cons_cons] at ih ⊢
        rw [List.cons_append, List.cons_append, ih]

/-- What stands before a name: nothing, or a text that ends in a separator. -/
def EndsInSlash (pre : List Char) : Prop :=
  pre = [] ∨ ∃ as, pre = as ++ ['/']

/-- The last segment of a text stands for the name at its end. -/
theorem exists_segments_append {pre name : List Char} (hp : EndsInSlash pre) (hn : '/' ∉ name) :
    ∃ init, segments (pre ++ name) = init ++ [name] ∧
      ∀ x, List.intercalate ['/'] (init ++ [x]) = pre ++ x := by
  rcases hp with rfl | ⟨as, rfl⟩
  · exact ⟨[], segments_of_notMem hn, fun x => by simp⟩
  · refine ⟨segments as, ?_, fun x => ?_⟩
    · rw [List.append_assoc, List.singleton_append, segments_append_slash, segments_of_notMem hn]
    · rw [intercalate_concat _ (segments_ne_nil as), intercalate_segments, List.append_assoc,
        List.singleton_append]

theorem trimSegments_concat {ss : List (List Char)} {s : List Char} (h : isSkipped s = false) :
    trimSegments (ss ++ [s]) = ss ++ [s] := by
  simp [trimSegments, h]

theorem EndsInSlash.tail {c : Char} {pre : List Char} (h : EndsInSlash (c :: pre)) :
    EndsInSlash pre := by
  rcases h with h | ⟨as, h⟩
  · cases h
  · cases as with
    | nil => cases h; exact .inl rfl
    | cons a as => cases h; exact .inr ⟨as, rfl⟩

/-- With a name behind it, only what starts so is taken for the root or for a `.`. -/
theorem append_ne_start {pre cs : List Char} (hp : EndsInSlash pre) (hslash : '/' ∉ cs)
    (hdot : cs ≠ ['.']) (hroot : ¬∃ pre', pre = '/' :: pre')
    (hcurrent : ¬∃ pre', pre = '.' :: '/' :: pre') (cs' : List Char) :
    pre ++ cs ≠ '/' :: cs' ∧ pre ++ cs ≠ '.' :: '/' :: cs' ∧ pre ++ cs ≠ ['.'] := by
  rcases pre with _ | ⟨c, _ | ⟨b, pre⟩⟩
  · refine ⟨?_, ?_, hdot⟩ <;>
    · rintro rfl
      simp at hslash
  · obtain rfl : c = '/' := by
      rcases hp with h | ⟨as, h⟩
      · cases h
      · cases as <;> simp_all
    exact absurd ⟨[], rfl⟩ hroot
  · refine ⟨?_, ?_, by simp⟩
    · intro h
      cases h
      exact hroot ⟨_, rfl⟩
    · intro h
      simp only [List.cons_append, List.cons.injEq] at h
      obtain ⟨rfl, rfl, -⟩ := h
      exact hcurrent ⟨_, rfl⟩

/-- A name at the end of a path can be replaced in its last segment. -/
theorem exists_parts_append {q : Path} {pre : List Char} {name : String}
    (hq : q.text.toList = pre ++ name.toList) (hp : EndsInSlash pre)
    (hn : (Component.normal name).IsStep) :
    ∃ init, q.parts.segments = init ++ [name.toList] ∧
      ∀ x, ofParts q.parts.lead (init ++ [x]) = ⟨String.ofList (pre ++ x)⟩ := by
  have hslash : '/' ∉ name.toList := hn.slash_notMem
  have hdot : name.toList ≠ ['.'] := by
    intro h
    rw [Component.IsStep, Component.text, h] at hn
    cases hn
  generalize name.toList = cs at *
  unfold parts
  rw [hq]
  by_cases hroot : ∃ pre', pre = '/' :: pre'
  · obtain ⟨pre, rfl⟩ := hroot
    obtain ⟨init, hs, hx⟩ := exists_segments_append hp.tail hslash
    exact ⟨init, hs, fun x => by simp [ofParts, hx, Component.text, String.ofList_cons]⟩
  by_cases hcurrent : ∃ pre', pre = '.' :: '/' :: pre'
  · obtain ⟨pre, rfl⟩ := hcurrent
    obtain ⟨init, hs, hx⟩ := exists_segments_append hp.tail.tail hslash
    refine ⟨[] :: init, congrArg ([] :: ·) hs, fun x => ?_⟩
    obtain ⟨s, ss, hss⟩ := List.exists_cons_of_ne_nil (l := init ++ [x]) (by simp)
    have hcons : [] :: init ++ [x] = [] :: s :: ss := by rw [List.cons_append, hss]
    rw [hcons, ofParts, List.intercalate_cons_cons, ← hss, hx]
    simp [Component.text, String.ofList_cons]
  have hstart := append_ne_start hp hslash hdot hroot hcurrent
  obtain ⟨init, hs, hx⟩ := exists_segments_append hp hslash
  split
  · rename_i h; exact absurd h (hstart _).1
  · rename_i h; exact absurd h (hstart _).2.1
  · rename_i h; exact absurd h (hstart []).2.2
  · exact ⟨init, hs, fun x => by simp [ofParts, hx]⟩

theorem exists_div_text (p : Path) :
    ∃ pre : List Char, EndsInSlash pre ∧ ∀ n : String, (Component.normal n).IsStep →
      (p / n).text.toList = pre ++ n.toList := by
  by_cases hl : p.text.toList.getLast? = some '/'
  · obtain ⟨as, has⟩ := List.getLast?_eq_some_iff.1 hl
    refine ⟨_, .inr ⟨as, has⟩, fun n hn => ?_⟩
    rw [div_eq_join, join, if_neg (not_isAbsolute_of_isStep hn), if_pos (by simp [hl]),
      String.toList_append]
  · by_cases hp : p.text = ""
    · refine ⟨[], .inl rfl, fun n hn => ?_⟩
      rw [div_eq_join, join_of_text_eq_nil (by simp [hp])]
      rfl
    · refine ⟨p.text.toList ++ ['/'], .inr ⟨_, rfl⟩, fun n hn => ?_⟩
      rw [div_eq_join, join, if_neg (not_isAbsolute_of_isStep hn), if_neg (by simp [hl, hp])]
      simp

/-- The extension of a joined name changes as that of the name. -/
theorem setExtension_div {p : Path} {name extension : String} (hn : (Component.normal name).IsStep)
    (he : extension ≠ "")
    (hf : (Component.normal ((splitExtension name).1 ++ "." ++ extension)).IsStep) :
    (p / name).setExtension extension = p / ((splitExtension name).1 ++ "." ++ extension) := by
  obtain ⟨pre, hpre, htext⟩ := exists_div_text p
  obtain ⟨init, hs, hx⟩ := exists_parts_append (htext name hn) hpre hn
  have hfile : (p / name).fileName? = some name := by
    rw [fileName?, components_div_name hn, List.getLast?_concat]
  have hskip : isSkipped name.toList = false := by
    have hc : stepsOf name.toList = [.normal name] := hn
    have hslash : '/' ∉ name.toList := hn.slash_notMem
    rw [stepsOf, segments_of_notMem hslash] at hc
    by_contra h
    simp [componentOf?, h] at hc
  rw [setExtension, hfile, hs, trimSegments_concat hskip, List.reverse_concat]
  simp only [List.reverse_reverse, hx]
  rw [if_neg (by simpa using he), ← htext _ hf, String.ofList_toList]

/-- Another extension is put in the place of the old one. -/
theorem withExtension_div {p : Path} {name stem old extension : String}
    (hn : (Component.normal name).IsStep) (hs : (Component.normal stem).IsStep)
    (hold : (splitExtension name).2 = some old) (hname : name = stem ++ old) :
    (p / name).withExtension extension = (p / stem).setExtension extension := by
  obtain ⟨pre, -, htext⟩ := exists_div_text p
  have hext : (p / name).extension? = some old := by
    rw [extension?, fileName?, components_div_name hn, List.getLast?_concat]
    exact hold
  have hcut : Path.mk (String.ofList ((p / name).text.toList.take
      ((p / name).text.toList.length - old.length))) = p / stem := by
    have hlen : (p / name).text.toList.length - old.length = (pre ++ stem.toList).length := by
      rw [htext name hn, hname, String.toList_append, ← List.append_assoc, List.length_append,
        String.length_toList, Nat.add_sub_cancel]
    rw [hlen, htext name hn, hname, String.toList_append, ← List.append_assoc, List.take_left,
      ← htext stem hs, String.ofList_toList]
  rw [withExtension, hext]
  simp only [hcut]

end JobBundler.Path
