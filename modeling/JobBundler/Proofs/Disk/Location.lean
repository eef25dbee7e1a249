import JobBundler.Disk.Change
import JobBundler.Proofs.Path.Place

/-!
# What paths denote

The disk decides whether a path leads anywhere; where it leads is decided by its text and the working
directory alone (`Disk.destination`, `locate_eq_ok`), since there are no links. A walk passes through
directories only, and so it goes on where the same directories are left (`walk_of_directories`).
-/

namespace JobBundler.Disk

/-- The location that a path leads to from a working directory, if it leads anywhere. -/
def destination (wd : Location) (p : Path) : Location :=
  (p.place wd.reverse).reverse

/-! ## Walks -/

variable {d d' : Disk}

theorem walk_append (here : Location) (as bs : List String) :
    d.walk here (as ++ bs) = d.walk here as >>= fun l => d.walk l bs := by
  induction as generalizing here with
  | nil => rfl
  | cons a as ih =>
    simp only [List.cons_append, walk]
    cases d.node? here with
    | none => rfl
    | some n =>
      cases n with
      | file f => rfl
      | directory =>
        simp only
        split
        · rfl
        · exact ih _

theorem walk_append_eq_ok_iff {here l : Location} {as bs : List String} :
    d.walk here (as ++ bs) = .ok l ↔ ∃ m, d.walk here as = .ok m ∧ d.walk m bs = .ok l := by
  rw [walk_append]
  cases d.walk here as <;> simp [bind, Except.bind]

theorem walk_cons_eq_ok_iff {here l : Location} {name : String} {names : List String} :
    d.walk here (name :: names) = .ok l ↔
      d.node? here = some .directory ∧ name.utf8ByteSize ≤ maxNameSize ∧
        d.walk (step here name) names = .ok l := by
  rw [walk]
  cases d.node? here with
  | none => simp
  | some n =>
    cases n with
    | file f => simp
    | directory =>
      by_cases hn : name.utf8ByteSize ≤ maxNameSize
      · simp [hn, Nat.not_lt.2 hn]
      · simp [hn, Nat.lt_of_not_le hn]

theorem eq_foldl_of_walk {here l : Location} {names : List String}
    (h : d.walk here names = .ok l) : l = names.foldl step here := by
  induction names generalizing here with
  | nil => cases h; rfl
  | cons name names ih => exact ih (walk_cons_eq_ok_iff.1 h).2.2

/-- A walk succeeds on every disk with the directories that it passes through. -/
theorem walk_of_directories {here l : Location} {names : List String}
    (h : d.walk here names = .ok l)
    (hd : ∀ pre post, names = pre ++ post → post ≠ [] →
      d.node? (pre.foldl step here) = some .directory →
        d'.node? (pre.foldl step here) = some .directory) :
    d'.walk here names = .ok l := by
  induction names generalizing here with
  | nil => exact h
  | cons name names ih =>
    obtain ⟨hn, hs, hw⟩ := walk_cons_eq_ok_iff.1 h
    refine walk_cons_eq_ok_iff.2 ⟨hd [] (name :: names) rfl (by simp) hn, hs, ih hw ?_⟩
    rintro pre post rfl hpost
    exact hd (name :: pre) post rfl hpost

/-! ## Destinations -/

theorem step_reverse (start : Location) {s : List Char} (hs : s ≠ []) :
    step start.reverse (String.ofList s) =
      ((Path.componentOf? s).toList.foldl Path.Component.move start).reverse := by
  have hof {t : String} : String.ofList s = t ↔ s = t.toList := by
    rw [← String.toList_inj, String.toList_ofList]
  have hempty : s.isEmpty = false := by simpa using hs
  unfold step Path.componentOf? Path.isSkipped
  rw [if_congr hof rfl rfl, if_congr hof rfl rfl, hempty, Bool.false_or]
  by_cases h₁ : s = ['.']
  · subst h₁; rfl
  · by_cases h₂ : s = ['.', '.']
    · subst h₂
      simp [Path.Component.move]
    · simp [h₁, h₂, Path.Component.move]

theorem foldl_step_steps (start : Location) (p : Path) :
    (steps p).foldl step start.reverse =
      ((Path.stepsOf p.text.toList).foldl Path.Component.move start).reverse := by
  unfold steps Path.stepsOf
  induction Path.segments p.text.toList generalizing start with
  | nil => rfl
  | cons s ss ih =>
    by_cases hs : s = []
    · subst hs
      exact ih start
    · have hempty : s.isEmpty = false := by simpa using hs
      have hcons : (s :: ss).filterMap Path.componentOf? =
          (Path.componentOf? s).toList ++ ss.filterMap Path.componentOf? := by
        cases hc : Path.componentOf? s <;> simp [hc]
      rw [List.filterMap_cons_some (by simp [hempty]; rfl), List.foldl_cons, step_reverse _ hs, ih,
        hcons, List.foldl_append]

theorem locate_eq_ok_iff {p : Path} {l : Location} :
    d.locate p = .ok l ↔ hasNul p.text = false ∧ p.text ≠ "" ∧ p.text.utf8ByteSize ≤ maxPathSize ∧
      d.walk (if p.isAbsolute then [] else d.workingDir) (steps p) = .ok l := by
  unfold locate
  by_cases h₁ : hasNul p.text
  · simp [h₁]
  · by_cases h₂ : p.text = ""
    · have hn : hasNul "" = false := rfl
      simp [h₂, hn]
    · by_cases h₃ : p.text.utf8ByteSize ≤ maxPathSize
      · simp [h₁, h₂, h₃, Nat.not_lt.2 h₃]
      · simp [h₁, h₂, h₃, Nat.lt_of_not_le h₃]

theorem foldl_steps_eq (wd : Location) (p : Path) :
    (steps p).foldl step (if p.isAbsolute then [] else wd) = destination wd p := by
  rw [destination]
  by_cases ha : p.isAbsolute
  · rw [if_pos ha, Path.place_of_isAbsolute ha, ← foldl_step_steps, List.reverse_nil]
  · rw [if_neg ha, Path.place_of_not_isAbsolute ha, ← foldl_step_steps, List.reverse_reverse]

/-- Where a path leads is decided by its text and the working directory. -/
theorem locate_eq_ok {p : Path} {l : Location} (h : d.locate p = .ok l) : l = destination d.workingDir p := by
  obtain ⟨-, -, -, hw⟩ := locate_eq_ok_iff.1 h
  rw [eq_foldl_of_walk hw, foldl_steps_eq]

theorem nodeAt_eq_ok {p : Path} {n : Node} (h : d.nodeAt p = .ok n) :
    d.locate p = .ok (destination d.workingDir p) ∧ d.node? (destination d.workingDir p) = some n := by
  unfold nodeAt at h
  cases hl : d.locate p with
  | error e => rw [hl] at h; cases h
  | ok l =>
    obtain rfl := locate_eq_ok hl
    rw [hl] at h
    simp only [bind, Except.bind] at h
    split at h <;> cases h <;> exact ⟨rfl, by assumption⟩

theorem nodeAt_of_error {p : Path} {e : FileError} (h : d.locate p = .error e) : d.nodeAt p = .error e := by
  unfold nodeAt
  rw [h]
  rfl

theorem nodeAt_of_none {p : Path} {l : Location} (hl : d.locate p = .ok l) (hn : d.node? l = none) :
    d.nodeAt p = .error .notFound := by
  unfold nodeAt
  rw [hl]
  simp only [bind, Except.bind, hn]
  rfl

/-- What is at the end of a path is found, though it need not be what the path asks for. -/
theorem nodeAt_ne_notFound {p : Path} {l : Location} {n : Node} (hl : d.locate p = .ok l)
    (hn : d.node? l = some n) : d.nodeAt p ≠ .error .notFound := by
  unfold nodeAt
  rw [hl]
  simp only [bind, Except.bind, hn]
  cases n <;> cases ending p <;> exact nofun

theorem node?_of_nodeAt_notFound (hl : d.locate p = .ok l) (h : d.nodeAt p = .error .notFound) :
    d.node? l = none := by
  cases hn : d.node? l with
  | none => rfl
  | some n => exact absurd h (nodeAt_ne_notFound hl hn)

theorem nodeAt_of_directory {p : Path} {l : Location} (hl : d.locate p = .ok l)
    (hn : d.node? l = some .directory) : d.nodeAt p = .ok .directory := by
  unfold nodeAt
  rw [hl]
  simp only [bind, Except.bind, hn]
  rfl

/-! ## Joined paths -/

/-- Where a path starts, seen from a working directory. -/
def start (wd : Location) (p : Path) : Location :=
  if p.isAbsolute then [] else wd

/-- The locations that a path leads through, up to the one that it leads to. -/
def way (wd : Location) (p : Path) : List Location :=
  (List.range ((steps p).length + 1)).map fun n => ((steps p).take n).foldl step (start wd p)

/-- A path before another one is kept in the text of the two, with a separator at most. -/
theorem exists_join_text (p : Path) :
    ∃ pre : String, (pre = p.text ∨ pre = p.text ++ "/") ∧
      ∀ q : Path, ¬q.isAbsolute → (p.join q).text = pre ++ q.text := by
  unfold Path.join
  by_cases h : p.text.isEmpty || p.text.toList.getLast? == some '/'
  · exact ⟨p.text, .inl rfl, fun q hq => by rw [if_neg hq, if_pos h]⟩
  · exact ⟨p.text ++ "/", .inr rfl, fun q hq => by rw [if_neg hq, if_neg h]⟩

/-- The steps of a text. -/
def textSteps (cs : List Char) : List String :=
  (Path.segments cs).filterMap fun s => if s.isEmpty then none else some (String.ofList s)

theorem steps_eq (p : Path) : steps p = textSteps p.text.toList := rfl

theorem textSteps_append_slash (as bs : List Char) :
    textSteps (as ++ '/' :: bs) = textSteps as ++ textSteps bs := by
  rw [textSteps, Path.segments_append_slash, List.filterMap_append, textSteps, textSteps]

theorem steps_join (p : Path) {q : Path} (hq : ¬q.isAbsolute) :
    steps (p.join q) = steps p ++ steps q := by
  rw [steps_eq, steps_eq, steps_eq, Path.join, if_neg hq]
  by_cases hl : p.text.toList.getLast? = some '/'
  · obtain ⟨as, has⟩ := List.getLast?_eq_some_iff.1 hl
    have hp : textSteps p.text.toList = textSteps as := by
      rw [has, textSteps_append_slash]; simp [textSteps, Path.segments]
    rw [if_pos (by simp [hl]), hp, String.toList_append, has, List.append_assoc]
    exact textSteps_append_slash _ _
  · by_cases he : p.text = ""
    · simp [he, textSteps, Path.segments]
    · rw [if_neg (by simp [hl, he]), String.toList_append, String.toList_append, List.append_assoc]
      exact textSteps_append_slash _ _

/-- The text can be that of a path. -/
def Fits (text : String) : Prop :=
  hasNul text = false ∧ text.utf8ByteSize ≤ maxPathSize

theorem hasNul_append (a b : String) : hasNul (a ++ b) = (hasNul a || hasNul b) := by
  simp [hasNul]

theorem Fits.of_append {a b : String} (h : Fits (a ++ b)) : Fits a := by
  obtain ⟨hn, hs⟩ := h
  rw [hasNul_append, Bool.or_eq_false_iff] at hn
  rw [String.utf8ByteSize_append] at hs
  exact ⟨hn.1, by omega⟩

section
open JobBundler.Path (Component)

variable {p : Path} {n : String}

theorem steps_of_isStep (h : (Component.normal n).IsStep) : steps ⟨n⟩ = [n] := by
  have hne : n.toList ≠ [] := by
    intro h₀
    rw [Component.IsStep, Component.text, h₀] at h
    cases h
  have hslash : '/' ∉ n.toList := h.slash_notMem
  rw [steps_eq, textSteps, Path.segments_of_notMem hslash]
  simp [hne]

theorem fits_of_div (hn : (Component.normal n).IsStep) (h : Fits (p / n).text) : Fits p.text := by
  obtain ⟨pre, hpre, hjoin⟩ := exists_join_text p
  rw [Path.div_eq_join, hjoin _ (Path.not_isAbsolute_of_isStep hn)] at h
  rcases hpre with rfl | rfl
  · exact h.of_append
  · exact h.of_append.of_append

theorem fits_sibling {a b : String} (ha : (Component.normal a).IsStep)
    (hb : (Component.normal b).IsStep) (hn : (Component.normal n).IsStep) (hnul : hasNul n = false)
    (hs : n.utf8ByteSize ≤ a.utf8ByteSize + b.utf8ByteSize) (h : Fits (p / a / b).text) :
    Fits (p / n).text := by
  obtain ⟨pre, -, hjoin⟩ := exists_join_text p
  obtain ⟨pre', hpre', hjoin'⟩ := exists_join_text (p / a)
  have hta : (p / a).text = pre ++ a := hjoin ⟨a⟩ ha.not_isAbsolute
  have htb : (p / a / b).text = pre' ++ b := hjoin' ⟨b⟩ hb.not_isAbsolute
  have htn : (p / n).text = pre ++ n := hjoin ⟨n⟩ hn.not_isAbsolute
  have hsize := h.2
  have hfits : Fits (pre ++ a) := hta ▸ fits_of_div hb h
  have hlen : (pre ++ a).utf8ByteSize ≤ pre'.utf8ByteSize := by
    rw [hta] at hpre'
    rcases hpre' with rfl | rfl
    · exact Nat.le_refl _
    · exact Nat.le_trans (Nat.le_add_right _ _) (Nat.le_of_eq String.utf8ByteSize_append.symm)
  rw [htn]
  refine ⟨by rw [hasNul_append, hfits.of_append.1, hnul]; rfl, ?_⟩
  rw [htb, String.utf8ByteSize_append] at hsize
  rw [String.utf8ByteSize_append] at hlen ⊢
  omega

theorem destination_div (h : (Component.normal n).IsStep) (wd : Location) (p : Path) :
    destination wd (p / n) = destination wd p ++ [n] := by
  rw [destination, Path.place_div h, List.reverse_cons, ← destination]

theorem destination_div_ne_nil (h : (Component.normal n).IsStep) (wd : Location) (p : Path) :
    destination wd (p / n) ≠ [] := by
  rw [destination_div h]
  exact List.concat_ne_nil _ _

theorem start_div (h : (Component.normal n).IsStep) (wd : Location) :
    start wd (p / n) = start wd p := by
  rw [start, Path.isAbsolute_div h, ← start]

/-- The path leads to a directory. -/
def Reaches (d : Disk) (p : Path) : Prop :=
  ∃ l, d.walk (start d.workingDir p) (steps p) = .ok l ∧ d.node? l = some .directory

theorem walk_div_eq_ok_iff (h : (Component.normal n).IsStep) {l : Location} :
    d.walk (start d.workingDir (p / n)) (steps (p / n)) = .ok l ↔
      ∃ m, d.walk (start d.workingDir p) (steps p) = .ok m ∧ d.node? m = some .directory ∧
        n.utf8ByteSize ≤ maxNameSize ∧ step m n = l := by
  rw [start_div h, Path.div_eq_join, steps_join p (Path.not_isAbsolute_of_isStep h),
    steps_of_isStep h, walk_append_eq_ok_iff]
  have hnil (m m' : Location) : d.walk m [] = .ok m' ↔ m = m' := by simp [walk]
  simp only [walk_cons_eq_ok_iff, hnil]

theorem reaches_of_walk_div (h : (Component.normal n).IsStep) {l : Location}
    (hw : d.walk (start d.workingDir (p / n)) (steps (p / n)) = .ok l) : Reaches d p := by
  obtain ⟨m, hm, hdir, -⟩ := (walk_div_eq_ok_iff h).1 hw
  exact ⟨m, hm, hdir⟩

theorem Reaches.of_div (h : (Component.normal n).IsStep) (hr : Reaches d (p / n)) : Reaches d p := by
  obtain ⟨l, hl, -⟩ := hr
  exact reaches_of_walk_div h hl

/-- A path goes on leading to a directory where the directories on its way are left. -/
theorem Reaches.of_directories (h : Reaches d p) (hwd : d'.workingDir = d.workingDir)
    (hd : ∀ m ∈ way d.workingDir p, d.node? m = some .directory → d'.node? m = some .directory) :
    Reaches d' p := by
  have hway {k : Nat} (hk : k ≤ (steps p).length) :
      ((steps p).take k).foldl step (start d.workingDir p) ∈ way d.workingDir p :=
    List.mem_map.2 ⟨k, List.mem_range.2 (Nat.lt_succ_of_le hk), rfl⟩
  obtain ⟨l, hl, hn⟩ := h
  rw [Reaches, hwd]
  refine ⟨l, walk_of_directories hl fun pre post hs _ => hd _ ?_, hd l ?_ hn⟩
  · have := hway (k := pre.length) (by rw [hs]; simp)
    rwa [hs, List.take_left] at this
  · have := hway (Nat.le_refl _)
    rwa [List.take_length, ← eq_foldl_of_walk hl] at this

theorem locate_div (h : (Component.normal n).IsStep) (hs : n.utf8ByteSize ≤ maxNameSize)
    (hf : Fits (p / n).text) (hr : Reaches d p) :
    d.locate (p / n) = .ok (destination d.workingDir (p / n)) := by
  obtain ⟨l, hl, hdir⟩ := hr
  have hloc : d.locate (p / n) = .ok (step l n) := by
    refine locate_eq_ok_iff.2 ⟨hf.1, ?_, hf.2, (walk_div_eq_ok_iff h).2 ⟨l, hl, hdir, hs, rfl⟩⟩
    intro ht
    have hc := Path.components_div_name h p
    rw [Path.components_of_text_eq_nil (congrArg String.toList ht)] at hc
    simp at hc
  rw [hloc, ← locate_eq_ok hloc]

end

end JobBundler.Disk
