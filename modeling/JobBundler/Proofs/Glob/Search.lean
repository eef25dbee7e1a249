import JobBundler.Discovery
import JobBundler.Proofs.Disk.Below
import JobBundler.Proofs.Glob.Components

/-!
# Searches

A path that a search builds leads through the paths that it is built from (`exists_leadsTo`). So a search
finds the same files on two disks, in the same order, when a file that it finds on one of them is a file on
the other one, too (`filter_search_congr`).
-/

namespace JobBundler

namespace Glob

open Disk
open JobBundler.Path (Component)

variable {d d' : Disk} {p q r : Path} {more more' : List String} {cs : List Glob.Component} {name : String}

/-! ## Where found paths lead -/

/-- The way of the second path is that of the first one and what follows. If nothing follows, a name at
the end of the one is a name at the end of the other. -/
structure LeadsTo (p : Path) (more : List String) (q : Path) : Prop where
  walk {d : Disk} {l : Location} (h : d.walk (start d.workingDir q) (steps q) = .ok l) :
    ∃ m, d.walk (start d.workingDir p) (steps p) = .ok m ∧ d.walk m more = .ok l
  ending (hmore : more = []) (hq : ending q = .name) : ending p = .name

theorem LeadsTo.refl (p : Path) : LeadsTo p [] p :=
  ⟨fun h => ⟨_, h, rfl⟩, fun _ h => h⟩

theorem LeadsTo.trans (h : LeadsTo p more q) (h' : LeadsTo q more' r) : LeadsTo p (more ++ more') r := by
  constructor
  · intro d l hr
    obtain ⟨m', hq, hmore'⟩ := h'.walk hr
    obtain ⟨m, hp, hmore⟩ := h.walk hq
    exact ⟨m, hp, walk_append_eq_ok_iff.2 ⟨m', hmore, hmore'⟩⟩
  · intro hmore hr
    obtain ⟨hmore, hmore'⟩ := List.append_eq_nil_iff.1 hmore
    exact h.ending hmore (h'.ending hmore' hr)

theorem steps_of_slash_notMem (h : '/' ∉ name.toList) : steps ⟨name⟩ = if name = "" then [] else [name] := by
  rw [steps_eq, textSteps_of_notMem h, String.ofList_toList]
  simp

theorem not_isAbsolute_of_slash_notMem (h : '/' ∉ name.toList) : ¬(Path.mk name).isAbsolute := by
  rw [Path.isAbsolute_iff]
  rintro ⟨cs, hcs⟩
  apply h
  simp only at hcs
  simp [hcs]

theorem leadsTo_div (h : '/' ∉ name.toList) (p : Path) : LeadsTo p (steps ⟨name⟩) (p / name) := by
  have hrelative := not_isAbsolute_of_slash_notMem h
  rw [Path.div_eq_join]
  constructor
  · intro d l hq
    have hstart : start d.workingDir (p.join ⟨name⟩) = start d.workingDir p := by
      rw [start, Path.isAbsolute_join, Bool.eq_false_iff.2 hrelative, Bool.or_false, ← start]
    rw [hstart, steps_join p hrelative, walk_append_eq_ok_iff] at hq
    exact hq
  · intro hmore hq
    rw [steps_of_slash_notMem h] at hmore
    have hempty : name = "" := by
      by_contra hne
      simp [hne] at hmore
    subst hempty
    rw [Path.join, if_neg hrelative] at hq
    split at hq
    · simpa using hq
    · -- With a separator after it, a path has no name at its end.
      unfold Disk.ending at hq
      split at hq
      · cases hq
      · split at hq
        · cases hq
        · simp at hq

/-- A path of the working directory itself has no steps that lead anywhere. -/
theorem eq_dot_of_same (h : p.same ⟨"."⟩) : ¬p.isAbsolute ∧ ∀ s ∈ steps p, s = "." := by
  have hdot : (Path.mk ".").components = [.current] := by decide
  have hcomponents : p.components = [.current] := by rwa [Path.same, beq_iff_eq, hdot] at h
  have hrelative : ¬p.isAbsolute := by
    intro ha
    rw [Path.components_of_isAbsolute ha] at hcomponents
    cases hcomponents
  have hnone : Path.stepsOf p.text.toList = [] := by
    rw [Path.components_eq] at hcomponents
    rw [List.eq_nil_iff_forall_not_mem]
    intro x hx
    have hcurrent : x = .current := by
      have hmem := List.mem_append_right p.parts.lead.toList hx
      rw [hcomponents] at hmem
      exact List.mem_singleton.1 hmem
    have hstep := Path.isStep_of_mem_stepsOf hx
    rw [hcurrent] at hstep
    exact absurd hstep (by decide)
  refine ⟨hrelative, fun s hs => ?_⟩
  obtain ⟨segment, hsegment, heq⟩ := List.mem_filterMap.1 hs
  split at heq
  · cases heq
  · rename_i hne
    cases heq
    have hskipped : Path.componentOf? segment = none := List.filterMap_eq_nil_iff.1 hnone segment hsegment
    unfold Path.componentOf? at hskipped
    split at hskipped
    · rename_i hskip
      simp only [Path.isSkipped, Bool.or_eq_true, hne, Bool.false_eq_true, false_or, beq_iff_eq] at hskip
      rw [hskip]
    · split at hskipped <;> cases hskipped

theorem walk_dots {l : Location} {names : List String} (hl : d.node? l = some .directory)
    (h : ∀ s ∈ names, s = ".") : d.walk l names = .ok l := by
  induction names with
  | nil => rfl
  | cons s names ih =>
    obtain rfl := h s List.mem_cons_self
    exact walk_cons_eq_ok_iff.2 ⟨hl, by decide, ih fun s hs => h s (List.mem_cons_of_mem _ hs)⟩

theorem leadsTo_entry (h : '/' ∉ name.toList) (hname : p.same ⟨"."⟩ → name ≠ "") :
    LeadsTo p (steps ⟨name⟩) (entry p name) := by
  unfold entry
  split
  · rename_i hsame
    obtain ⟨hrelative, hdots⟩ := eq_dot_of_same hsame
    have hne := hname hsame
    have hsteps : steps ⟨name⟩ = [name] := by rw [steps_of_slash_notMem h, if_neg hne]
    constructor
    · intro d l hq
      have hstart : start d.workingDir ⟨name⟩ = start d.workingDir p := by
        rw [start, if_neg (not_isAbsolute_of_slash_notMem h), start, if_neg hrelative]
      rw [hstart] at hq
      refine ⟨_, walk_dots ?_ hdots, hq⟩
      rw [hsteps] at hq
      exact (walk_cons_eq_ok_iff.1 hq).1
    · intro hmore
      rw [hsteps] at hmore
      cases hmore
  · exact leadsTo_div h p

theorem leadsTo_foldl_entry {names : Location} (h : IsNamed names) (p : Path) :
    LeadsTo p names (names.foldl entry p) := by
  induction names generalizing p with
  | nil => exact .refl p
  | cons name names ih =>
    have hstep := h name List.mem_cons_self
    have hentry : LeadsTo p (steps ⟨name⟩) (entry p name) := by
      refine leadsTo_entry hstep.slash_notMem fun _ => ?_
      simpa using toList_ne_nil_of_isStep hstep
    rw [steps_of_isStep hstep] at hentry
    exact hentry.trans (ih (fun n hn => h n (List.mem_cons_of_mem name hn)) _)

/-! ## Searches through the entries of a directory -/

/-- Whether the names are one, and the tokens stand for it. -/
def isNamedBy (ts : List Token) : Location → Bool
  | [name] => accepts ts name.toList
  | _ => false

theorem match_directory {α : Type} (d : Disk) (p : Path) (f : Location → List α) :
    (match d.nodeAt p, d.locate p with
      | .ok .directory, .ok l => f l
      | _, _ => []) = if d.isDirectory p then f (destination d.workingDir p) else [] := by
  by_cases hp : d.isDirectory p
  · rw [if_pos hp, nodeAt_eq_directory_iff.2 hp, (isDirectory_iff.1 hp).1]
  · rw [if_neg hp]
    split
    · exact absurd (nodeAt_eq_directory_iff.1 ‹_›) hp
    · rfl

theorem namesIn_eq (d : Disk) (p : Path) :
    namesIn d p = (d.entriesBelow p).filterMap fun | [name] => some name | _ => none := by
  refine (match_directory d p d.names).trans ?_
  unfold entriesBelow names
  split
  · rw [List.filterMap_map]
    refine List.filterMap_congr fun e _ => ?_
    rcases e with ⟨_ | ⟨name, _ | ⟨name', names⟩⟩, n⟩ <;> rfl
  · rfl

theorem pathsBelow_eq (d : Disk) (p : Path) :
    pathsBelow d p = (d.entriesBelow p).filterMap fun names =>
      names.getLast?.map fun name => (names.foldl entry p, name) := by
  refine (match_directory d p fun l => (d.below l).filterMap fun e =>
    e.1.getLast?.map fun name => (e.1.foldl entry p, name)).trans ?_
  unfold entriesBelow
  split
  · rw [List.filterMap_map]
    rfl
  · rfl

theorem search_wild (d : Disk) (ts : List Token) (cs : List Glob.Component) (p : Path) :
    search d (.wild ts :: cs) p =
      (if d.isDirectory p then dotEntries ts else []).flatMap (fun name => search d cs (p / name)) ++
        ((d.entriesBelow p).filter (isNamedBy ts)).flatMap fun names =>
          search d cs (names.foldl entry p) := by
  rw [search, namesIn_eq]
  congr 1
  induction d.entriesBelow p with
  | nil => rfl
  | cons names rest ih =>
    rcases names with _ | ⟨name, _ | ⟨name', names⟩⟩
    · exact ih
    · rw [List.filterMap_cons, List.filter_cons, List.filter_cons, isNamedBy]
      split
      · rw [List.flatMap_cons, List.flatMap_cons, ih]
        rfl
      · exact ih
    · exact ih

theorem search_directories (d : Disk) (c : Glob.Component) (cs : List Glob.Component) (p : Path) :
    search d (.directories :: c :: cs) p =
      ((d.entriesBelow p).filter (·.getLast?.any c.acceptsName)).flatMap fun names =>
        search d cs (names.foldl entry p) := by
  rw [search, pathsBelow_eq]
  induction d.entriesBelow p with
  | nil => rfl
  | cons names rest ih =>
    rw [List.filter_cons]
    cases hlast : names.getLast? with
    | none =>
      rw [List.filterMap_cons_none (by rw [hlast]; rfl)]
      exact ih
    | some name =>
      rw [List.filterMap_cons_some (by rw [hlast]; rfl), List.filter_cons, Option.any_some]
      split
      · rw [List.flatMap_cons, List.flatMap_cons, ih]
      · exact ih

theorem isNamed_of_mem_entriesBelow (hd : d.WellFormed) {names : Location} (h : names ∈ d.entriesBelow p) :
    IsNamed names := by
  obtain ⟨-, hne, hnode⟩ := mem_entriesBelow_iff.1 h
  obtain ⟨n, hn⟩ := Option.ne_none_iff_exists'.1 hnode
  have hnamed := hd.named _ (exists_of_node? hn (by simp [hne]))
  exact fun name hname => hnamed name (List.mem_append_right _ hname)

theorem slash_notMem_of_dotEntries {ts : List Token} (h : name ∈ dotEntries ts) :
    '/' ∉ name.toList ∧ steps ⟨name⟩ = [name] := by
  unfold dotEntries at h
  split at h
  · have hname := (List.mem_filter.1 h).1
    simp only [List.mem_cons, List.not_mem_nil, or_false] at hname
    rcases hname with rfl | rfl
    all_goals exact ⟨by decide, by decide⟩
  · cases h

theorem ne_empty_of_hasEntry (h : hasEntry d p name) (hp : p.same ⟨"."⟩) : name ≠ "" := by
  rintro rfl
  have hentry : entry p "" = ⟨""⟩ := by rw [entry, if_pos hp]
  have hnone : d.contains ⟨""⟩ = false := rfl
  rw [hasEntry, if_neg (by decide), hentry, hnone] at h
  cases h

/-- The literal names of the components hold no separator. -/
def AreNames (cs : List Glob.Component) : Prop :=
  ∀ name, .literal name ∈ cs → '/' ∉ name.toList

theorem AreNames.tail {c : Glob.Component} (h : AreNames (c :: cs)) : AreNames cs :=
  fun name hname => h name (List.mem_cons_of_mem c hname)

theorem exists_of_isNamedBy {ts : List Token} {names : Location} (h : isNamedBy ts names) :
    ∃ name, names = [name] := by
  unfold isNamedBy at h
  split at h
  · exact ⟨_, rfl⟩
  · cases h

/-- A search goes on from where it starts. -/
theorem exists_leadsTo (hd : d.WellFormed) (hcs : AreNames cs) (h : q ∈ search d cs p) :
    ∃ more, LeadsTo p more q := by
  have hbelow {p : Path} {names : Location} (hnames : names ∈ d.entriesBelow p) :
      LeadsTo p names (names.foldl entry p) :=
    leadsTo_foldl_entry (isNamed_of_mem_entriesBelow hd hnames) p
  induction cs, p using search.induct d with
  | case1 p =>
    obtain rfl := List.mem_singleton.1 h
    exact ⟨[], .refl _⟩
  | case2 name cs p hentry ih =>
    rw [search, if_pos hentry] at h
    obtain ⟨more, hmore⟩ := ih hcs.tail h
    exact ⟨_, (leadsTo_entry (hcs name List.mem_cons_self) (ne_empty_of_hasEntry hentry)).trans hmore⟩
  | case3 name cs p hentry =>
    rw [search, if_neg hentry] at h
    cases h
  | case4 ts cs p ihdots ihnames =>
    rw [search_wild] at h
    rcases List.mem_append.1 h with h | h
    · obtain ⟨name, hname, hq⟩ := List.mem_flatMap.1 h
      split at hname
      · obtain ⟨more, hmore⟩ := ihdots name hcs.tail hq
        exact ⟨_, (leadsTo_div (slash_notMem_of_dotEntries hname).1 p).trans hmore⟩
      · cases hname
    · obtain ⟨names, hnames, hq⟩ := List.mem_flatMap.1 h
      obtain ⟨hnames, hone⟩ := List.mem_filter.1 hnames
      obtain ⟨name, rfl⟩ := exists_of_isNamedBy hone
      obtain ⟨more, hmore⟩ := ihnames name hcs.tail hq
      exact ⟨_, (hbelow hnames).trans hmore⟩
  | case5 p =>
    rw [search, pathsBelow_eq] at h
    obtain ⟨e, he, rfl⟩ := List.mem_map.1 (List.mem_filter.1 h).1
    obtain ⟨names, hnames, heq⟩ := List.mem_filterMap.1 he
    obtain ⟨name, -, rfl⟩ := Option.map_eq_some_iff.1 heq
    exact ⟨_, hbelow hnames⟩
  | case6 c cs p ih =>
    rw [search_directories] at h
    obtain ⟨names, hnames, hq⟩ := List.mem_flatMap.1 h
    obtain ⟨more, hmore⟩ := ih (names.foldl entry p, "") hcs.tail.tail hq
    exact ⟨_, (hbelow (List.mem_filter.1 hnames).1).trans hmore⟩

/-! ## The same files on another disk -/

/-- On the way to a file there are directories, and the file at its end. -/
theorem LeadsTo.node? (h : LeadsTo p more q) (hq : d.isFile q) :
    d.walk (start d.workingDir p) (steps p) = .ok (destination d.workingDir p) ∧
      (d.node? (destination d.workingDir p) = some .directory ∨
        more = [] ∧ Disk.ending p = .name ∧ ∃ f, d.node? (destination d.workingDir p) = some (.file f)) := by
  obtain ⟨f, hf⟩ := isFile_iff.1 hq
  obtain ⟨hl, hname, hnode⟩ := nodeAt_eq_file_iff.1 hf
  obtain ⟨-, -, -, hwalk⟩ := locate_eq_ok_iff.1 hl
  obtain ⟨m, hm, hmore⟩ := h.walk hwalk
  have hdestination : m = destination d.workingDir p := by
    rw [eq_foldl_of_walk hm, foldl_steps_start]
  rw [← hdestination]
  refine ⟨hm, ?_⟩
  cases more with
  | nil =>
    cases hmore
    exact .inr ⟨rfl, h.ending rfl hname, f, hnode⟩
  | cons name names => exact .inl (walk_cons_eq_ok_iff.1 hmore).1

theorem LeadsTo.locate (h : LeadsTo p more q) {l : Location} (hp : d.locate p = .ok l) (hq : d'.isFile q) :
    d'.locate p = .ok (destination d'.workingDir p) := by
  obtain ⟨hnul, hempty, hsize, -⟩ := locate_eq_ok_iff.1 hp
  exact locate_eq_ok_iff.2 ⟨hnul, hempty, hsize, (h.node? hq).1⟩

theorem LeadsTo.isDirectory (h : LeadsTo p more q) (hmore : more ≠ []) (hp : d.isDirectory p)
    (hq : d'.isFile q) : d'.isDirectory p := by
  refine isDirectory_iff.2 ⟨h.locate (isDirectory_iff.1 hp).1 hq, ?_⟩
  exact (h.node? hq).2.resolve_right fun hfile => hmore hfile.1

theorem LeadsTo.contains (h : LeadsTo p more q) (hp : d.contains p) (hq : d'.isFile q) : d'.contains p := by
  have hl : ∃ l, d.locate p = .ok l := by
    unfold Disk.contains at hp
    cases hn : d.nodeAt p with
    | error e =>
      rw [hn] at hp
      cases hp
    | ok n => exact ⟨_, (nodeAt_eq_ok hn).1⟩
  obtain ⟨l, hl⟩ := hl
  have hlocate := h.locate hl hq
  unfold Disk.contains
  rcases (h.node? hq).2 with hdir | ⟨-, hname, f, hfile⟩
  · rw [nodeAt_eq_directory_iff.2 (isDirectory_iff.2 ⟨hlocate, hdir⟩)]
    rfl
  · rw [nodeAt_eq_file_iff.2 ⟨hlocate, hname, hfile⟩]
    rfl

theorem LeadsTo.hasEntry (h : LeadsTo (entry p name) more q) (hname : '/' ∉ name.toList)
    (hp : hasEntry d p name) (hq : d'.isFile q) : Glob.hasEntry d' p name := by
  have hne := ne_empty_of_hasEntry hp
  unfold Glob.hasEntry at hp ⊢
  split at hp
  · rename_i hdots
    rw [if_pos hdots]
    refine ((leadsTo_entry hname hne).trans h).isDirectory ?_ hp hq
    rcases hdots with rfl | rfl
    all_goals exact List.append_ne_nil_of_left_ne_nil (by decide) _
  · rename_i hdots
    rw [if_neg hdots]
    exact h.contains hp hq

theorem foldl_step_of_isNamed {l names : Location} (h : IsNamed names) : names.foldl step l = l ++ names := by
  induction names generalizing l with
  | nil => simp
  | cons name names ih =>
    have hname := h name List.mem_cons_self
    have hdots : name ≠ "." ∧ name ≠ ".." := by
      constructor
      all_goals
        rintro rfl
        exact absurd hname (by decide)
    rw [List.foldl_cons, step, if_neg hdots.1, if_neg hdots.2, ih fun n hn => h n (List.mem_cons_of_mem _ hn)]
    simp

/-- What a file is found through is an entry on the other disk, too. -/
theorem LeadsTo.mem_entriesBelow {names : Location} (hd : d.WellFormed)
    (h : LeadsTo (names.foldl entry p) more q) (hnames : names ∈ d.entriesBelow p) (hq : d'.isFile q) :
    names ∈ d'.entriesBelow p := by
  have hnamed := isNamed_of_mem_entriesBelow hd hnames
  obtain ⟨hp, hne, -⟩ := mem_entriesBelow_iff.1 hnames
  have hbelow := leadsTo_foldl_entry hnamed p
  obtain ⟨hwalk, hnode⟩ := h.node? hq
  obtain ⟨m, hm, hmore⟩ := hbelow.walk hwalk
  have hdestination : destination d'.workingDir (names.foldl entry p) =
      destination d'.workingDir p ++ names := by
    rw [eq_foldl_of_walk hmore, eq_foldl_of_walk hm, foldl_steps_start, foldl_step_of_isNamed hnamed]
  refine mem_entriesBelow_iff.2 ⟨(hbelow.trans h).isDirectory (by simp [hne]) hp hq, hne, ?_⟩
  rw [← hdestination]
  rcases hnode with hdir | ⟨-, -, f, hfile⟩
  · simp [hdir]
  · simp [hfile]

/-- What of the paths are files on the one disk are files on the other one, too. -/
def Shared (d d' : Disk) (qs : List Path) : Prop :=
  ∀ q ∈ qs, d.isFile q → d'.isFile q

theorem Shared.left {qs qs' : List Path} (h : Shared d d' (qs ++ qs')) : Shared d d' qs :=
  fun q hq => h q (List.mem_append_left qs' hq)

theorem Shared.right {qs qs' : List Path} (h : Shared d d' (qs ++ qs')) : Shared d d' qs' :=
  fun q hq => h q (List.mem_append_right qs hq)

theorem Shared.of_flatMap {α : Type} {as : List α} {f : α → List Path} (h : Shared d d' (as.flatMap f))
    {a : α} (ha : a ∈ as) : Shared d d' (f a) :=
  fun q hq => h q (List.mem_flatMap.2 ⟨a, ha, hq⟩)

/-- What is found through the entries of a directory is the same when it is so for each entry. -/
theorem filter_flatMap_entriesBelow {accept : Location → Bool} (hd : d.WellFormed) (hd' : d'.WellFormed)
    (hcs : AreNames cs)
    (h : Shared d d' <| ((d.entriesBelow p).filter accept).flatMap fun names =>
      search d cs (names.foldl entry p))
    (h' : Shared d' d <| ((d'.entriesBelow p).filter accept).flatMap fun names =>
      search d' cs (names.foldl entry p))
    (ih : ∀ names, accept names → Shared d d' (search d cs (names.foldl entry p)) →
      Shared d' d (search d' cs (names.foldl entry p)) →
      (search d cs (names.foldl entry p)).filter d.isFile =
        (search d' cs (names.foldl entry p)).filter d'.isFile) :
    (((d.entriesBelow p).filter accept).flatMap fun names => search d cs (names.foldl entry p)).filter
        d.isFile =
      (((d'.entriesBelow p).filter accept).flatMap fun names => search d' cs (names.foldl entry p)).filter
        d'.isFile := by
  -- An entry that only one of the disks has leads to no file.
  have hmissing {d d' : Disk} (hd : d.WellFormed)
      (h : Shared d d' <| ((d.entriesBelow p).filter accept).flatMap fun names =>
        search d cs (names.foldl entry p)) :
      ∀ names ∈ (d.entriesBelow p).filter accept, names ∉ (d'.entriesBelow p).filter accept →
        (search d cs (names.foldl entry p)).filter d.isFile = [] := by
    intro names hnames hnot
    rw [List.filter_eq_nil_iff]
    intro q hq hfile
    obtain ⟨hentry, haccept⟩ := List.mem_filter.1 hnames
    obtain ⟨more, hmore⟩ := exists_leadsTo hd hcs hq
    have hfile' : d'.isFile q := h.of_flatMap hnames q hq hfile
    exact hnot (List.mem_filter.2 ⟨hmore.mem_entriesBelow hd hentry hfile', haccept⟩)
  rw [List.filter_flatMap, List.filter_flatMap]
  apply flatMap_eq_of_sorted ((isSorted_entriesBelow d p).filter _) ((isSorted_entriesBelow d' p).filter _)
    ((hd.nodup_entriesBelow p).filter _) ((hd'.nodup_entriesBelow p).filter _)
  · intro names hnames hnames'
    exact ih names (List.mem_filter.1 hnames).2 (h.of_flatMap hnames) (h'.of_flatMap hnames')
  · exact hmissing hd h
  · exact hmissing hd' h'

theorem filter_search_directories (d : Disk) (p : Path) :
    (search d [.directories] p).filter d.isFile = [] := by
  rw [List.filter_eq_nil_iff]
  intro q hq hfile
  rw [search] at hq
  obtain ⟨f, hf⟩ := isFile_iff.1 hfile
  rw [nodeAt_eq_directory_iff.2 (List.mem_filter.1 hq).2] at hf
  cases hf

theorem filter_search_of_not_hasEntry (hd : d.WellFormed) (hcs : AreNames (.literal name :: cs))
    (hentry : hasEntry d p name) (hnot : ¬hasEntry d' p name)
    (h : Shared d d' (search d cs (entry p name))) :
    (search d cs (entry p name)).filter d.isFile = [] := by
  rw [List.filter_eq_nil_iff]
  intro q hq hfile
  obtain ⟨more, hmore⟩ := exists_leadsTo hd hcs.tail hq
  exact hnot (hmore.hasEntry (hcs name List.mem_cons_self) hentry (h q hq hfile))

/-- What is found through the entries `.` and `..` is the same when it is so for each of them. -/
theorem filter_flatMap_dotEntries {ts : List Token} (hd : d.WellFormed) (hd' : d'.WellFormed)
    (hcs : AreNames cs)
    (h : Shared d d' <| (if d.isDirectory p then dotEntries ts else []).flatMap fun name =>
      search d cs (p / name))
    (h' : Shared d' d <| (if d'.isDirectory p then dotEntries ts else []).flatMap fun name =>
      search d' cs (p / name))
    (ih : ∀ name : String, Shared d d' (search d cs (p / name)) → Shared d' d (search d' cs (p / name)) →
      (search d cs (p / name)).filter d.isFile = (search d' cs (p / name)).filter d'.isFile) :
    ((if d.isDirectory p then dotEntries ts else []).flatMap fun name => search d cs (p / name)).filter
        d.isFile =
      ((if d'.isDirectory p then dotEntries ts else []).flatMap fun name => search d' cs (p / name)).filter
        d'.isFile := by
  have hmissing {d d' : Disk} (hd : d.WellFormed) (hp : d.isDirectory p) (hp' : ¬d'.isDirectory p)
      (h : Shared d d' <| (dotEntries ts).flatMap fun name => search d cs (p / name)) :
      ((dotEntries ts).flatMap fun name => search d cs (p / name)).filter d.isFile = [] := by
    rw [List.filter_eq_nil_iff]
    intro q hq hfile
    have hfile' : d'.isFile q := h q hq hfile
    obtain ⟨name, hname, hq⟩ := List.mem_flatMap.1 hq
    obtain ⟨hslash, hsteps⟩ := slash_notMem_of_dotEntries hname
    obtain ⟨more, hmore⟩ := exists_leadsTo hd hcs hq
    have hlead := (leadsTo_div hslash p).trans hmore
    rw [hsteps] at hlead
    exact hp' (hlead.isDirectory (by simp) hp hfile')
  by_cases hp : d.isDirectory p
  · rw [if_pos hp] at h ⊢
    by_cases hp' : d'.isDirectory p
    · rw [if_pos hp'] at h' ⊢
      rw [List.filter_flatMap, List.filter_flatMap]
      exact List.flatMap_congr fun name hname => ih name (h.of_flatMap hname) (h'.of_flatMap hname)
    · rw [if_neg hp', hmissing hd hp hp' h]
      rfl
  · rw [if_neg hp]
    by_cases hp' : d'.isDirectory p
    · rw [if_pos hp'] at h' ⊢
      rw [hmissing hd' hp' hp h']
      rfl
    · rw [if_neg hp']
      rfl

/-- A search finds the same files on two disks if what it finds on one of them are files on the other one,
too. -/
theorem filter_search_congr (hd : d.WellFormed) (hd' : d'.WellFormed) (hcs : AreNames cs)
    (h : Shared d d' (search d cs p)) (h' : Shared d' d (search d' cs p)) :
    (search d cs p).filter d.isFile = (search d' cs p).filter d'.isFile := by
  induction cs, p using search.induct d with
  | case1 p =>
    have hp : d.isFile p = d'.isFile p :=
      Bool.eq_iff_iff.2 ⟨h p List.mem_cons_self, h' p List.mem_cons_self⟩
    rw [search, search, List.filter_singleton, List.filter_singleton, hp]
  | case2 name cs p hentry ih =>
    rw [search, if_pos hentry] at h ⊢
    rw [search] at h' ⊢
    by_cases hentry' : hasEntry d' p name
    · rw [if_pos hentry'] at h' ⊢
      exact ih hcs.tail h h'
    · rw [if_neg hentry']
      exact filter_search_of_not_hasEntry hd hcs hentry hentry' h
  | case3 name cs p hentry =>
    rw [search, if_neg hentry, search]
    rw [search] at h'
    by_cases hentry' : hasEntry d' p name
    · rw [if_pos hentry'] at h' ⊢
      exact (filter_search_of_not_hasEntry hd' hcs hentry' hentry h').symm
    · rw [if_neg hentry']
      rfl
  | case4 ts cs p ihdots ihnames =>
    rw [search_wild] at h h' ⊢
    rw [search_wild, List.filter_append, List.filter_append]
    congr 1
    · apply filter_flatMap_dotEntries hd hd' hcs.tail h.left h'.left
      exact fun name => ihdots name hcs.tail
    · apply filter_flatMap_entriesBelow hd hd' hcs.tail h.right h'.right
      intro names haccept
      obtain ⟨name, rfl⟩ := exists_of_isNamedBy haccept
      exact ihnames name hcs.tail
  | case5 p => rw [filter_search_directories, filter_search_directories]
  | case6 c cs p ih =>
    rw [search_directories] at h h' ⊢
    rw [search_directories]
    apply filter_flatMap_entriesBelow hd hd' hcs.tail.tail h h'
    exact fun names _ => ih (names.foldl entry p, "") hcs.tail.tail

theorem files_eq_ok {pattern : String} {paths : List Path} (h : files d pattern = .ok paths) :
    ∃ cs start, AreNames cs ∧ ∀ d', files d' pattern =
      .ok (if pattern.toList.getLast? = some '/' then [] else (search d' cs start).filter d'.isFile) := by
  obtain ⟨cs, hcs, -⟩ := Except.bind_eq_ok_iff.1 h
  refine ⟨cs, if (Path.mk pattern).isAbsolute then ⟨"/"⟩ else ⟨"."⟩,
    fun name => slash_notMem_of_components hcs, fun d' => ?_⟩
  unfold files
  rw [hcs]
  simp only [bind, Except.bind]
  split <;> rfl

theorem isFile_of_mem_files {pattern : String} {paths : List Path} (h : files d pattern = .ok paths)
    (hp : p ∈ paths) : d.isFile p := by
  obtain ⟨cs, start, -, hfiles⟩ := files_eq_ok h
  have hfound := hfiles d
  rw [h] at hfound
  obtain rfl := Except.ok.inj hfound
  split at hp
  · cases hp
  · exact (List.mem_filter.1 hp).2

theorem files_congr {pattern : String} (hd : d.WellFormed) (hd' : d'.WellFormed) {paths paths' : List Path}
    (hpaths : files d pattern = .ok paths) (hpaths' : files d' pattern = .ok paths')
    (h : ∀ q ∈ paths, d'.isFile q) (h' : ∀ q ∈ paths', d.isFile q) : paths' = paths := by
  obtain ⟨cs, start, hcs, hfiles⟩ := files_eq_ok hpaths
  rw [hfiles] at hpaths hpaths'
  obtain rfl := Except.ok.inj hpaths
  obtain rfl := Except.ok.inj hpaths'
  split
  · rfl
  · rw [if_neg ‹_›] at h h'
    symm
    apply filter_search_congr hd hd' hcs
    · exact fun q hq hfile => h q (List.mem_filter.2 ⟨hq, hfile⟩)
    · exact fun q hq hfile => h' q (List.mem_filter.2 ⟨hq, hfile⟩)

end Glob

namespace Discovery

open Disk

variable {c : Config} {d d' : Disk} {p : Path} {ps : List Path}

theorem findSources_eq_ok (h : findSources c d = .ok ps) :
    ∃ paths, Glob.files d (pattern c) = .ok paths ∧
      ps = paths.mergeSort fun p q => p.compare q != .gt := by
  unfold findSources at h
  split at h
  · cases h
    exact ⟨_, ‹_›, rfl⟩
  · cases h

theorem isFile_of_mem_findSources (h : findSources c d = .ok ps) (hp : p ∈ ps) : d.isFile p := by
  obtain ⟨paths, hpaths, rfl⟩ := findSources_eq_ok h
  exact Glob.isFile_of_mem_files hpaths (List.mem_mergeSort.1 hp)

/-- The job sources are the same on two disks exactly if those on each of them are files on the other
one. -/
theorem findSources_eq_iff (hd : d.WellFormed) (hd' : d'.WellFormed) (hps : findSources c d = .ok ps)
    (h : ∀ p ∈ ps, d'.isFile p) :
    findSources c d' = .ok ps ↔ ∀ ps', findSources c d' = .ok ps' → ∀ p ∈ ps', d.isFile p := by
  constructor
  · intro hsame ps' hps' p hp
    rw [hsame] at hps'
    cases hps'
    exact isFile_of_mem_findSources hps hp
  · intro h'
    obtain ⟨paths, hpaths, rfl⟩ := findSources_eq_ok hps
    obtain ⟨cs, start, -, hfiles⟩ := Glob.files_eq_ok hpaths
    obtain ⟨paths', hpaths'⟩ : ∃ paths', Glob.files d' (pattern c) = .ok paths' := ⟨_, hfiles d'⟩
    have hfound : findSources c d' = .ok (paths'.mergeSort fun p q => p.compare q != .gt) := by
      unfold findSources
      rw [hpaths']
    rw [hfound, Glob.files_congr hd hd' hpaths hpaths']
    · exact fun q hq => h q (List.mem_mergeSort.2 hq)
    · exact fun q hq => h' _ hfound q (List.mem_mergeSort.2 hq)

end Discovery

end JobBundler
