import JobBundler.Proofs.Dispatch.Course

/-!
# Guessed artifacts

A job that the manifest does not list is looked for in an artifact of its own. Whatever its id is made of,
dots included, the name of that artifact is one component of a path, so the guess does not leave the
directory of such artifacts (`Dispatcher.resolve_guesses`). What is no id is refused before anything is read.
-/

namespace JobBundler

open JobBundler.Path (Component)

namespace Name

/-- The characters of names, each range by its ends. -/
def charRanges : List (Char × Char) :=
  [('A', 'Z'), ('a', 'z'), ('0', '9'), ('.', '.'), ('_', '_'), ('-', '-')]

/-- The text is empty or has a character that no name has. -/
def IsMalformed (text : String) : Prop :=
  text = "" ∨ ∃ ch ∈ text.toList, ∀ range ∈ charRanges, ¬(range.1 ≤ ch ∧ ch ≤ range.2)

theorem isNameChar_iff {ch : Char} :
    isNameChar ch ↔ ∃ range ∈ charRanges, range.1 ≤ ch ∧ ch ≤ range.2 := by
  have hone (x : Char) : x ≤ ch ∧ ch ≤ x ↔ ch = x :=
    ⟨fun h => Char.le_antisymm h.2 h.1, fun h => h ▸ ⟨Char.le_refl _, Char.le_refl _⟩⟩
  have halpha : ch.isAlpha ↔ ('A' ≤ ch ∧ ch ≤ 'Z') ∨ 'a' ≤ ch ∧ ch ≤ 'z' := by
    rw [Text.isAlpha_iff]
    rfl
  have hdigit : ch.isDigit ↔ '0' ≤ ch ∧ ch ≤ '9' := by
    simp only [Char.isDigit, Bool.and_eq_true, decide_eq_true_eq]
    rfl
  simp only [isNameChar, Char.isAlphanum, Bool.or_eq_true, beq_iff_eq, halpha, hdigit, charRanges,
    List.exists_mem_cons_iff, List.not_mem_nil, false_and, exists_false, or_false, hone, or_assoc]

theorem isMalformed_iff {text : String} : IsMalformed text ↔ isValid text = false := by
  have hchar (ch : Char) :
      (∀ range ∈ charRanges, ¬(range.1 ≤ ch ∧ ch ≤ range.2)) ↔ isNameChar ch = false := by
    rw [Bool.eq_false_iff, Ne, isNameChar_iff]
    simp only [not_exists, not_and]
  simp only [IsMalformed, isValid, hchar, Bool.and_eq_false_iff, Bool.not_eq_false',
    String.isEmpty_iff, List.all_eq_false, Bool.not_eq_true]

-- By the check itself: an instance found for the quantifier would run over all characters there are.
instance (text : String) : Decidable (IsMalformed text) :=
  decidable_of_iff' _ isMalformed_iff

end Name

namespace Dispatcher

variable {c : Config} {id : String} {d : Disk}

/-- There is no manifest, or one that does not list the id. -/
def Unlisted (c : Config) (id : String) (d : Disk) : Prop :=
  ∃ manifest?, Manifest.load c.manifestPath d = .ok manifest? ∧
    ∀ manifest ∈ manifest?, ∀ listed ∈ manifest.toList, listed.1.text ≠ id

/-- What an id that is not listed is resolved to. -/
structure IsGuess (c : Config) (id : String) (r : Resolved) : Prop where
  entry : r.entry = none
  /-- The file is named by the output directory and two names after it. -/
  components : r.file.components =
    c.outPath.components ++ [.normal "jobs", .normal s!"{id}.{c.artifactExt}"]
  /-- From wherever it is followed, the path ends one name below the directory of the jobs' artifacts. -/
  place (start : List String) :
    r.file.place start = s!"{id}.{c.artifactExt}" :: (c.outPath / "jobs").place start

/-! ## What is refused -/

theorem resolve_of_not_valid (h : Name.isValid id = false) (d : Disk) :
    resolve c id d = .error (.invalidId ⟨.jobId, id⟩) := by
  unfold resolve JobId.parse
  rw [dif_neg (by simp [h])]
  rfl

theorem resolve_of_valid (h : Name.isValid id = true) (d : Disk) :
    resolve c id d = (manifestEntry c id d).map fun entry =>
      let artifactPath := match entry with
        | some e => e.artifactPath
        | none => jobArtifactPath id c.artifactExt
      { artifactPath, file := c.artifactFile artifactPath, entry } := by
  unfold resolve JobId.parse
  rw [dif_pos h]
  cases hentry : manifestEntry c id d <;>
    simp only [Except.mapError, bind, Except.bind, hentry] <;> rfl

theorem manifestEntry_ne_invalidId (e : InvalidName) :
    manifestEntry c id d ≠ .error (.invalidId e) := by
  unfold manifestEntry
  split <;> simp

theorem resolve_eq_invalidId_iff :
    (∃ e, resolve c id d = .error (.invalidId e)) ↔ Name.IsMalformed id := by
  rw [Name.isMalformed_iff]
  constructor
  · rintro ⟨e, he⟩
    by_contra hid
    rw [resolve_of_valid (by simpa using hid)] at he
    cases hentry : manifestEntry c id d with
    | ok entry =>
      rw [hentry] at he
      cases he
    | error e' =>
      rw [hentry] at he
      cases he
      exact manifestEntry_ne_invalidId e hentry
  · exact fun hid => ⟨_, resolve_of_not_valid hid d⟩

/-- A dispatch of what is no id asks nothing of the world. -/
theorem Course.eq_nil {p : Dispatcher} {noBuild : Bool}
    {result : Except DispatchError (Option JobOutput)} {history : List Event}
    (h : Course p id noBuild (.done result) history) (hid : Name.isValid id = false) : history = [] :=
  (h.follows.refused hid).1

/-! ## What is guessed -/

theorem manifestEntry_of_unlisted (h : Unlisted c id d) : manifestEntry c id d = .ok none := by
  obtain ⟨manifest?, hload, hunlisted⟩ := h
  unfold manifestEntry
  rw [hload]
  cases manifest? with
  | none => rfl
  | some m =>
    have hfind : m.find? id = none := by
      rw [Index.find?, Option.map_eq_none_iff, List.find?_eq_none]
      intro listed hlisted
      have hother : label listed.1 ≠ id := hunlisted m rfl listed hlisted
      simpa using hother
    simp [hfind]

theorem isGuess_jobArtifactPath (hne : c.artifactExt ≠ "") (hslash : '/' ∉ c.artifactExt.toList)
    (hid : Name.isValid id = true) :
    IsGuess c id
      { artifactPath := jobArtifactPath id c.artifactExt
        file := c.artifactFile (jobArtifactPath id c.artifactExt)
        entry := none } := by
  have hjobs : (Component.normal "jobs").IsStep := isStep_dir (by decide)
  have hname := isStep_artifactFile hslash hne hid
  have hfile : c.artifactFile (jobArtifactPath id c.artifactExt) =
      c.outPath / "jobs" / s!"{id}.{c.artifactExt}" := by
    rw [← Disk.div_div hjobs hname]
    have htext : "jobs/" ++ id ++ "." ++ c.artifactExt = "jobs/" ++ (id ++ "." ++ c.artifactExt) := by
      simp only [String.append_assoc]
    exact congrArg (c.outPath / ·) htext
  refine ⟨rfl, ?_, fun start => ?_⟩
  · rw [hfile, Path.components_div_name hname, Path.components_div_name hjobs, List.append_assoc]
    rfl
  · rw [hfile, Path.place_div hname]

theorem exists_guess (hne : c.artifactExt ≠ "") (hslash : '/' ∉ c.artifactExt.toList)
    (hid : Name.isValid id = true) (h : Unlisted c id d) :
    ∃ r, resolve c id d = .ok r ∧ IsGuess c id r := by
  rw [resolve_of_valid hid, manifestEntry_of_unlisted h]
  exact ⟨_, rfl, isGuess_jobArtifactPath hne hslash hid⟩

/-- Guesses for different ids are different paths. -/
theorem IsGuess.id_eq {other : String} {r r' : Resolved} (h : IsGuess c id r) (h' : IsGuess c other r')
    (hsame : r.file.same r'.file) : id = other := by
  rw [Path.same, beq_iff_eq, h.components, h'.components] at hsame
  have hlast : s!"{id}.{c.artifactExt}" = s!"{other}.{c.artifactExt}" := by
    simpa using List.append_cancel_left hsame
  exact artifactFile_inj.1 hlast

/-- What is no id is refused whatever is on the disk, and before anything is read. An id that the manifest
does not list is resolved to a file in the directory of the jobs' artifacts, each id to one of its own. -/
theorem resolve_guesses (hblank : Text.isBlankText c.artifactExt = false)
    (hslash : '/' ∉ c.artifactExt.toList) :
    (∀ id d, (∃ e, resolve c id d = .error (.invalidId e)) ↔ Name.IsMalformed id) ∧
      (∀ id, Name.IsMalformed id → (∀ d, resolve c id d = .error (.invalidId ⟨.jobId, id⟩)) ∧
        ∀ (p : Dispatcher) noBuild result history,
          Course p id noBuild (.done result) history → history = []) ∧
      (∀ id d, ¬Name.IsMalformed id → Unlisted c id d → ∃ r, resolve c id d = .ok r ∧ IsGuess c id r) ∧
      ∀ id id' d d' r r', Unlisted c id d → Unlisted c id' d' → resolve c id d = .ok r →
        resolve c id' d' = .ok r' → r.file.same r'.file → id = id' := by
  have hne : c.artifactExt ≠ "" := by
    intro hext
    rw [hext] at hblank
    exact absurd hblank (by decide)
  have hguess {id : String} {d : Disk} {r : Resolved} (h : Unlisted c id d)
      (hr : resolve c id d = .ok r) : IsGuess c id r := by
    obtain ⟨r', hr', hguess⟩ := exists_guess hne hslash (valid_of_resolve hr) h
    rw [hr] at hr'
    cases hr'
    exact hguess
  refine ⟨fun id d => resolve_eq_invalidId_iff, fun id hid => ?_, fun id d hid h => ?_, ?_⟩
  · rw [Name.isMalformed_iff] at hid
    exact ⟨resolve_of_not_valid hid, fun p noBuild result history h => h.eq_nil hid⟩
  · rw [Name.isMalformed_iff] at hid
    exact exists_guess hne hslash (by simpa using hid) h
  · intro id id' d d' r r' h h' hr hr' hsame
    exact (hguess h hr).id_eq (hguess h' hr') hsame

/-- Ids of dots, with a manifest that lists another job, and a text that is no id. -/
theorem dottedIds_guessed :
    let c : Config := {}
    let text := "\x7b\"A\": \x7b\"mode\": \"single\", \"artifactPath\": \"jobs/A.mjs\"\x7d\x7d"
    let d := (((Disk.bare ["w"]).put ["w", "dist"] .directory).put
      ["w", "dist", "manifest.json"] (.file { content := .text text }))
    (Text.isBlankText c.artifactExt = false ∧ '/' ∉ c.artifactExt.toList) ∧
      (¬Name.IsMalformed ".." ∧ Unlisted c ".." d ∧ ¬Name.IsMalformed "." ∧ Unlisted c "." d) ∧
      (∃ r r', resolve c ".." d = .ok r ∧ resolve c "." d = .ok r' ∧
        r.file.components = [.current, .normal "dist", .normal "jobs", .normal "...mjs"] ∧
        ¬r.file.same r'.file) ∧
      Name.IsMalformed "../A" ∧ resolve c "../A" d = .error (.invalidId ⟨.jobId, "../A"⟩) := by
  intro c text d
  have hext : Text.isBlankText c.artifactExt = false ∧ '/' ∉ c.artifactExt.toList := by decide
  have hlisted : (Manifest.load c.manifestPath d).toOption.map (·.map (·.keys.map (·.text))) =
      some (some ["A"]) := by
    decide +kernel
  have hunlisted {id : String} (hid : id ≠ "A") : Unlisted c id d := by
    cases hload : Manifest.load c.manifestPath d with
    | error e => simp [hload, Except.toOption] at hlisted
    | ok manifest? =>
      refine ⟨manifest?, hload, ?_⟩
      rintro m rfl listed hmem htext
      have hkeys : m.keys.map (·.text) = ["A"] := by simpa [hload, Except.toOption] using hlisted
      have hid' : id ∈ m.keys.map (·.text) :=
        List.mem_map.2 ⟨listed.1, List.mem_map.2 ⟨listed, hmem, rfl⟩, htext⟩
      rw [hkeys] at hid'
      exact hid (List.mem_singleton.1 hid')
  have hup : ¬Name.IsMalformed ".." ∧ Unlisted c ".." d := ⟨by decide, hunlisted (by decide)⟩
  have hhere : ¬Name.IsMalformed "." ∧ Unlisted c "." d := ⟨by decide, hunlisted (by decide)⟩
  have hno : Name.IsMalformed "../A" := by decide
  obtain ⟨-, hrefused, hguessed, hdistinct⟩ := resolve_guesses hext.1 hext.2
  obtain ⟨r, hr, hguess⟩ := hguessed ".." d hup.1 hup.2
  obtain ⟨r', hr', -⟩ := hguessed "." d hhere.1 hhere.2
  refine ⟨hext, ⟨hup.1, hup.2, hhere.1, hhere.2⟩, ⟨r, r', hr, hr', ?_, fun hsame => ?_⟩, hno,
    (hrefused "../A" hno).1 d⟩
  · rw [hguess.components]
    decide
  · exact absurd (hdistinct ".." "." d d r r' hup.2 hhere.2 hr hr' hsame) (by decide)

end Dispatcher
end JobBundler
