import JobBundler.Glob.Pattern
import JobBundler.Proofs.Entry.Plan

/-!
# Components of patterns

No component of a pattern holds a separator (`slash_notMem_of_components`), since the pattern is cut at
them before its pieces are read.
-/

namespace JobBundler.Glob

theorem subset_of_upToBracket? {cs inner rest : List Char}
    (h : charClass?.upToBracket? cs = some (inner, rest)) : rest ⊆ cs := by
  induction cs generalizing inner with
  | nil => cases h
  | cons c cs ih =>
    rw [charClass?.upToBracket?] at h
    split at h
    · cases h
      exact List.subset_cons_self c rest
    · obtain ⟨⟨inner', rest'⟩, hrest, heq⟩ := Option.map_eq_some_iff.1 h
      cases heq
      exact List.Subset.trans (ih hrest) (List.subset_cons_self c cs)

/-- A class is no character, and what comes after it is a part of the text. -/
theorem of_charClass? {cs rest : List Char} {t : Token} (h : charClass? cs = some (t, rest)) :
    (∀ c, t ≠ .char c) ∧ rest ⊆ cs := by
  unfold charClass? at h
  split at h
  · rename_i c cs
    obtain ⟨⟨inner, rest'⟩, hrest, heq⟩ := Option.map_eq_some_iff.1 h
    cases heq
    refine ⟨by simp, ?_⟩
    exact List.Subset.trans (subset_of_upToBracket? hrest)
      (List.Subset.trans (List.subset_cons_self c cs) (List.subset_cons_self _ _))
  · cases h
  · rename_i c cs _ _
    obtain ⟨⟨inner, rest'⟩, hrest, heq⟩ := Option.map_eq_some_iff.1 h
    cases heq
    refine ⟨by simp, ?_⟩
    exact List.Subset.trans (subset_of_upToBracket? hrest) (List.subset_cons_self c cs)
  · cases h

/-- The characters among the tokens of a text are characters of it. -/
theorem mem_of_tokensFrom {position : Nat} {previous : Option Char} {cs : List Char} {ts : List Token}
    (h : tokensFrom position previous cs = .ok ts) {c : Char} (hc : .char c ∈ ts) : c ∈ cs := by
  fun_induction tokensFrom position previous cs generalizing ts with
  | case1 =>
    cases h
    cases hc
  | case2 | case5 | case6 | case7 => cases h
  | case3 =>
    cases h
    simp at hc
  | case4 position previous _ cs _ ih =>
    obtain ⟨ts', hts, heq⟩ := Except.bind_eq_ok_iff.1 h
    cases heq
    have hmem : .char c ∈ ts' := by simpa using hc
    exact List.mem_cons_of_mem _ (List.mem_cons_of_mem _ (List.mem_cons_of_mem _ (ih hts hmem)))
  | case8 position previous cs t rest hclass ih =>
    obtain ⟨ts', hts, heq⟩ := Except.bind_eq_ok_iff.1 h
    cases heq
    obtain ⟨hchar, hrest⟩ := of_charClass? hclass
    have hmem : .char c ∈ ts' := (List.mem_cons.1 hc).resolve_left (hchar c).symm
    exact List.mem_cons_of_mem _ (hrest (ih hts hmem))
  | case9 position previous cs ih | case10 position previous cs _ _ ih =>
    obtain ⟨ts', hts, heq⟩ := Except.bind_eq_ok_iff.1 h
    cases heq
    have hmem : .char c ∈ ts' := by simpa using hc
    exact List.mem_cons_of_mem _ (ih hts hmem)
  | case11 position previous c' cs _ _ _ _ _ ih =>
    obtain ⟨ts', hts, heq⟩ := Except.bind_eq_ok_iff.1 h
    cases heq
    rcases List.mem_cons.1 hc with hc | hc
    · cases hc
      exact List.mem_cons_self
    · exact List.mem_cons_of_mem _ (ih hts hc)

theorem mem_literal? {ts : List Token} {name : List Char} (h : literal? ts = some name) {c : Char}
    (hc : c ∈ name) : .char c ∈ ts := by
  induction ts generalizing name with
  | nil =>
    cases h
    cases hc
  | cons t ts ih =>
    cases t with
    | char c' =>
      obtain ⟨name', hname, rfl⟩ := Option.map_eq_some_iff.1 h
      rcases List.mem_cons.1 hc with rfl | hc
      · exact List.mem_cons_self
      · exact List.mem_cons_of_mem _ (ih hname hc)
    | _ => cases h

theorem mem_of_mem_collapse {cs : List Component} {x : Component} (h : x ∈ collapse cs) : x ∈ cs := by
  fun_induction collapse cs with
  | case1 cs ih => exact List.mem_cons_of_mem _ (ih h)
  | case2 c cs _ ih =>
    rcases List.mem_cons.1 h with rfl | h
    · exact List.mem_cons_self
    · exact List.mem_cons_of_mem _ (ih h)
  | case3 => exact h

/-- A component of a pattern holds no separator. -/
theorem slash_notMem_of_components {pattern name : String} {cs : List Component}
    (h : components pattern = .ok cs) (hname : .literal name ∈ cs) : '/' ∉ name.toList := by
  obtain ⟨_, -, h⟩ := Except.bind_eq_ok_iff.1 h
  obtain ⟨found, hfound, h⟩ := Except.bind_eq_ok_iff.1 h
  cases h
  obtain ⟨piece, hpiece, hread⟩ := exists_of_mem_mapM hfound (mem_of_mem_collapse hname)
  obtain ⟨ts, hts, hliteral⟩ := Except.bind_eq_ok_iff.1 hread
  have hslash : '/' ∉ piece := by
    split at hpiece
    · exact Path.notMem_of_mem_segments (List.dropLast_subset _ hpiece)
    · exact Path.notMem_of_mem_segments hpiece
  have hof : Component.ofTokens ts = .literal name := Except.ok.inj hliteral
  unfold Component.ofTokens at hof
  split at hof
  · cases hof
  · split at hof
    · rename_i chars hchars
      cases hof
      rw [String.toList_ofList]
      intro hmem
      exact hslash (mem_of_tokensFrom hts (mem_literal? hchars hmem))
    · cases hof

end JobBundler.Glob
