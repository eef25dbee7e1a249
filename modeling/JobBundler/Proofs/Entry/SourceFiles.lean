import JobBundler.Entry.Group
import JobBundler.Proofs.Path.FileName
import JobBundler.Proofs.Path.Specifier
import JobBundler.Proofs.Reference.Words

/-!
# The source files of a group

The source files of jobs are those of a list without repetitions (`sourceFiles_eq`), and each is
imported by a start of its own text (`modulePath_text`), which is absolute where the file is.
-/

namespace JobBundler

/-! ## Each file once -/

theorem Path.same_comm (p q : Path) : p.same q = q.same p :=
  Bool.beq_comm

/-- The files after a step of the loop over the jobs. -/
def addFile (files : List Path) (file : Path) : List Path :=
  if files.any (·.same file) then files else files ++ [file]

theorem sourceFiles_eq_foldl (js : List Job) :
    sourceFiles js = (js.map (·.sourceFile)).foldl addFile [] := by
  rw [List.foldl_map]
  rfl

theorem foldl_addFile (files seen : List Path) :
    files.foldl addFile seen.reverse = List.eraseDupsBy.loop Path.same files seen := by
  induction files generalizing seen with
  | nil => rfl
  | cons file files ih =>
    have hany : seen.reverse.any (·.same file) = seen.any (file.same ·) := by
      simp only [List.any_reverse, Path.same_comm file]
    rw [List.foldl_cons, addFile, hany, List.eraseDupsBy.loop]
    cases seen.any (file.same ·) with
    | true => exact ih seen
    | false =>
      have hseen : seen.reverse ++ [file] = (file :: seen).reverse := by simp
      rw [if_neg Bool.false_ne_true, hseen, ih]

theorem sourceFiles_eq (js : List Job) :
    sourceFiles js = (js.map (·.sourceFile)).eraseDupsBy Path.same := by
  rw [sourceFiles_eq_foldl]
  exact foldl_addFile _ []

theorem mem_foldl_addFile {files seen : List Path} {file : Path}
    (h : file ∈ files.foldl addFile seen) : file ∈ seen ∨ file ∈ files := by
  induction files generalizing seen with
  | nil => exact .inl h
  | cons f files ih =>
    rcases ih h with h | h
    · unfold addFile at h
      split at h
      · exact .inl h
      · rcases List.mem_append.1 h with h | h
        · exact .inl h
        · obtain rfl := List.mem_singleton.1 h
          exact .inr List.mem_cons_self
    · exact .inr (List.mem_cons_of_mem f h)

theorem exists_of_mem_sourceFiles {js : List Job} {file : Path} (h : file ∈ sourceFiles js) :
    ∃ j ∈ js, j.sourceFile = file := by
  rw [sourceFiles_eq_foldl] at h
  rcases mem_foldl_addFile h with h | h
  · cases h
  · exact List.mem_map.1 h

/-- No file is lost: one with the same components is there or was before. -/
theorem any_same_foldl_addFile {files seen : List Path} {file : Path}
    (h : seen.any (·.same file) ∨ file ∈ files) : (files.foldl addFile seen).any (·.same file) := by
  induction files generalizing seen with
  | nil => exact h.resolve_right List.not_mem_nil
  | cons f files ih =>
    refine ih ?_
    rw [List.mem_cons, ← or_assoc] at h
    refine h.imp_left fun h => ?_
    unfold addFile
    split
    · rename_i hany
      rcases h with h | rfl
      · exact h
      · exact hany
    · rcases h with h | rfl
      · rw [List.any_append, h, Bool.true_or]
      · simp [Path.same]

/-- Each job has its file among the source files. -/
theorem exists_findIdx?_sourceFiles {js : List Job} {j : Job} (h : j ∈ js) :
    ∃ n file, (sourceFiles js).findIdx? (·.same j.sourceFile) = some n ∧
      (sourceFiles js)[n]? = some file ∧ file.same j.sourceFile := by
  have hany : (sourceFiles js).any (·.same j.sourceFile) := by
    rw [sourceFiles_eq_foldl]
    exact any_same_foldl_addFile (.inr (List.mem_map_of_mem h))
  rw [← List.findIdx?_isSome, Option.isSome_iff_exists] at hany
  obtain ⟨n, hn⟩ := hany
  obtain ⟨hlt, hsame, -⟩ := List.findIdx?_eq_some_iff_getElem.1 hn
  exact ⟨n, _, hn, List.getElem?_eq_getElem hlt, hsame⟩

/-! ## Aliases -/

theorem fileAlias_toList (n : Nat) :
    (fileAlias n).toList = ['_', '_', 'e', 'j'] ++ Nat.toDigits 10 n := by
  simp [fileAlias, toString, Nat.repr]

theorem isName_fileAlias (n : Nat) : Lexeme.IsName (fileAlias n) := by
  have hdigits : (Nat.toDigits 10 n).all Literal.isNameContinue := by
    refine List.all_eq_true.2 fun c hc => ?_
    have hdigit := Nat.isDigit_of_mem_toDigits (by decide) (by decide) hc
    exact Reference.isNameContinue_of_isWordChar (by simp [Reference.isWordChar, Char.isAlphanum, hdigit])
  refine ⟨'_', ['_', 'e', 'j'] ++ Nat.toDigits 10 n, fileAlias_toList n, by decide, ?_⟩
  rw [List.all_append, hdigits]
  decide

theorem fileAlias_injective : Function.Injective fileAlias := by
  intro m n h
  have hdigits := congrArg String.toList h
  rw [fileAlias_toList, fileAlias_toList, List.append_cancel_left_eq] at hdigits
  rw [← Nat.ofDigitChars_ten_toDigits (n := m), hdigits, Nat.ofDigitChars_ten_toDigits]

/-! ## Module paths -/

/-- A file is imported by a start of its text. -/
theorem modulePath_text (file : Path) : (modulePath file).text.toList <+: file.text.toList ∧
    (file.text.toList ≠ [] → (modulePath file).text.toList ≠ []) := by
  unfold modulePath
  split
  · exact file.withExtension_empty
  · exact ⟨List.prefix_rfl, id⟩

theorem isAbsolute_modulePath {file : Path} (h : file.isAbsolute) : (modulePath file).isAbsolute := by
  obtain ⟨cs, hcs⟩ := Path.isAbsolute_iff.1 h
  obtain ⟨hstart, hne⟩ := modulePath_text file
  rw [hcs] at hstart hne
  obtain ⟨c, ds, hds⟩ := List.exists_cons_of_ne_nil (hne (List.cons_ne_nil _ _))
  rw [hds] at hstart
  obtain ⟨rfl, -⟩ := List.cons_prefix_cons.1 hstart
  exact Path.isAbsolute_iff.2 ⟨ds, hds⟩

/-- The specifier of a file whose path is on one line is on one line. -/
theorem onOneLine_relative {file : Path} (h : Lexeme.OnOneLine file.text.toList) (entryDir : Path) :
    Lexeme.OnOneLine (Specifier.relative entryDir (modulePath file)).toList := by
  have hnone {a : Char} (ha : ¬Specifier.IsStructural a) (hfile : a ∉ file.text.toList) :
      a ∉ (Specifier.relative entryDir (modulePath file)).toList := by
    intro hmem
    rcases Specifier.mem_relative hmem with hmem | hmem
    · exact ha hmem
    · exact hfile ((modulePath_text file).1.subset hmem)
  exact ⟨hnone (by simp [Specifier.IsStructural]) h.1, hnone (by simp [Specifier.IsStructural]) h.2⟩

end JobBundler
